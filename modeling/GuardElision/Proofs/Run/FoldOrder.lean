import GuardElision.Proofs.Run.Accounting
import Mathlib.Data.List.Perm.Basic

/-!
# Folding in any order

A fold writes the branch of its check and reads nothing else. Folds of different branches therefore
commute: whatever the order, they give one program, which differs from the old one in the
conditions of the branches whose exits are known, and each of them ends as it would have ended
alone. Folding once more finds every condition as it should be.

A run folds what its ledger lists, by ascending number, so the checks that could not be folded are
warned about in that order.
-/

namespace GuardElision

theorem RegularExit.constant?_eq_none_iff (exit : RegularExit) :
    exit.constant? = none ↔ exit = .unknown := by
  cases exit <;> simp [constant?]

namespace Node

/-- Only an unknown exit is ambiguous. -/
theorem outcome_eq_ambiguous_iff (n : Node) (exit : RegularExit) :
    n.outcome exit = .ambiguous ↔ exit = .unknown := by
  rw [← exit.constant?_eq_none_iff, outcome]
  cases exit.constant? with
  | none => simp
  | some value => by_cases h : n.operands.head? = some (.constant (.bool value)) <;> simp [h]

/-- A folded branch has nothing left to fold. -/
theorem outcome_towards (n : Node) (exit : RegularExit) :
    (n.towards exit).outcome exit = if exit = .unknown then .ambiguous else .alreadyConstant := by
  cases exit <;> simp [outcome, towards, RegularExit.constant?, withCondition]

end Node

namespace Program

/-- Fold some checks towards their exits, one after the other; also what became of each. -/
def eliminateAll : Program → List (Check × RegularExit) →
    Except Mismatch (Program × List FoldOutcome)
  | p, [] => .ok (p, [])
  | p, (c, exit) :: rest => do
    let (p, outcome) ← p.eliminate c exit
    let (p, outcomes) ← p.eliminateAll rest
    return (p, outcome :: outcomes)

/-- The branches of some checks are two-way branches of a program, no two of them the same. -/
structure Foldable (p : Program) (requests : List (Check × RegularExit)) : Prop where
  distinct : (requests.map fun r => r.1.branch).Nodup
  branches : ∀ r ∈ requests, ∃ n, p.node? r.1.branch = some n ∧ n.isCondBranch = true

/-- One program differs from another only in the conditions of the branches of some checks: they
test the constants that the exits demand, as far as these are known. -/
structure FoldedTo (p q : Program) (requests : List (Check × RegularExit)) : Prop where
  /-- Everything but the nodes is the same. -/
  frame : q = { p with nodes := q.nodes }
  left : ∀ c, (c, .left) ∈ requests → ∀ n, p.node? c.branch = some n →
    q.node? c.branch = some { n with operands := .constant (.bool true) :: n.operands.tail }
  right : ∀ c, (c, .right) ∈ requests → ∀ n, p.node? c.branch = some n →
    q.node? c.branch = some { n with operands := .constant (.bool false) :: n.operands.tail }
  /-- A node that no check with a known exit has for its branch is the same. -/
  kept : ∀ i : Nat, (∀ r ∈ requests, r.1.branch.index.toNat = i → r.2 = .unknown) →
    q.nodes[i]? = p.nodes[i]?

/-- The program with the branches of some checks folded in turn. -/
def foldInTurn (p : Program) (requests : List (Check × RegularExit)) : Program :=
  requests.foldl (fun p r => p.foldTowards r.1.branch r.2) p

/-- What becomes of the branch of a check that is folded alone. -/
def outcomeAlone (p : Program) (r : Check × RegularExit) : FoldOutcome :=
  match p.node? r.1.branch with
  | none => .ambiguous
  | some n => n.outcome r.2

/-- Folding changes the node at the place of the branch and no other one. -/
theorem getElem?_foldTowards (p : Program) (branch : NodeId) (exit : RegularExit) (i : Nat) :
    (p.foldTowards branch exit).nodes[i]? =
      if branch.index.toNat = i then p.nodes[i]?.map (Node.towards exit) else p.nodes[i]? := by
  simp only [foldTowards, Array.getElem?_modify]

/-- Folds of two branches can change places. -/
theorem foldTowards_comm (p : Program) {branch other : NodeId} (hne : branch ≠ other)
    (exit exit' : RegularExit) :
    (p.foldTowards branch exit).foldTowards other exit' =
      (p.foldTowards other exit').foldTowards branch exit := by
  have hplace : branch.index.toNat ≠ other.index.toNat := fun heq => hne (rank_inj.mp heq)
  have hnodes : ((p.foldTowards branch exit).foldTowards other exit').nodes =
      ((p.foldTowards other exit').foldTowards branch exit).nodes := by
    apply Array.ext_getElem?
    intro i
    simp only [getElem?_foldTowards]
    by_cases hi : branch.index.toNat = i
    · have hi' : other.index.toNat ≠ i := fun h => hplace (hi.trans h.symm)
      rw [if_neg hi', if_pos hi, if_pos hi, if_neg hi']
    · rw [if_neg hi, if_neg hi]
  exact congrArg (fun nodes => { p with nodes }) hnodes

variable {p : Program} {requests : List (Check × RegularExit)}

theorem Foldable.perm {order : List (Check × RegularExit)} (h : p.Foldable requests)
    (horder : order.Perm requests) : p.Foldable order :=
  ⟨(horder.map _).nodup_iff.mpr h.distinct, fun r hr => h.branches r (horder.mem_iff.mp hr)⟩

/-- Folding the branch of the first check leaves the other ones as they are. -/
theorem Foldable.tail {r : Check × RegularExit} (h : p.Foldable (r :: requests)) :
    (p.foldTowards r.1.branch r.2).Foldable requests ∧
      ∀ s ∈ requests, (p.foldTowards r.1.branch r.2).node? s.1.branch = p.node? s.1.branch := by
  have hdistinct := List.nodup_cons.mp h.distinct
  have hsame : ∀ s ∈ requests,
      (p.foldTowards r.1.branch r.2).node? s.1.branch = p.node? s.1.branch := by
    intro s hs
    have hne : s.1.branch ≠ r.1.branch := fun heq =>
      hdistinct.1 (List.mem_map.mpr ⟨s, hs, heq⟩)
    rw [node?_foldTowards, if_neg hne]
  refine ⟨⟨hdistinct.2, fun s hs => ?_⟩, hsame⟩
  rw [hsame s hs]
  exact h.branches s (List.mem_cons_of_mem r hs)

/-- Folding checks of different branches succeeds, and each fold ends as it would alone. -/
theorem eliminateAll_eq_ok (h : p.Foldable requests) :
    p.eliminateAll requests = .ok (p.foldInTurn requests, requests.map p.outcomeAlone) := by
  induction requests generalizing p with
  | nil => rfl
  | cons r rest ih =>
    obtain ⟨c, exit⟩ := r
    obtain ⟨n, hnode, hbranch⟩ := h.branches (c, exit) List.mem_cons_self
    obtain ⟨hrest, hsame⟩ := h.tail
    have houtcomes : rest.map (p.foldTowards c.branch exit).outcomeAlone =
        rest.map p.outcomeAlone := by
      refine List.map_congr_left fun s hs => ?_
      rw [outcomeAlone, outcomeAlone, hsame s hs]
    rw [eliminateAll, eliminate_eq_ok ((p.branchOf_eq_ok_iff c n).mpr ⟨hnode, hbranch⟩),
      List.map_cons, outcomeAlone, hnode]
    show (do
      let (q, outcomes) ← (p.foldTowards c.branch exit).eliminateAll rest
      return (q, n.outcome exit :: outcomes) : Except Mismatch (Program × List FoldOutcome)) = _
    rw [ih hrest, houtcomes]
    rfl

/-- The order of the folds does not show. -/
theorem foldInTurn_perm {order : List (Check × RegularExit)} (h : p.Foldable requests)
    (horder : order.Perm requests) : p.foldInTurn order = p.foldInTurn requests := by
  refine horder.foldl_eq' (fun r hr s hs q => ?_) p
  by_cases hrs : r.1.branch = s.1.branch
  · have hinj := List.inj_on_of_nodup_map (h.perm horder).distinct hr hs hrs
    rw [hinj]
  · exact q.foldTowards_comm hrs r.2 s.2

/-- A node that no check with a known exit has for its branch is not folded. -/
theorem getElem?_foldInTurn {i : Nat}
    (h : ∀ r ∈ requests, r.1.branch.index.toNat = i → r.2 = .unknown) :
    (p.foldInTurn requests).nodes[i]? = p.nodes[i]? := by
  induction requests generalizing p with
  | nil => rfl
  | cons r rest ih =>
    have hrest := ih (p := p.foldTowards r.1.branch r.2) fun s hs => h s (List.mem_cons_of_mem r hs)
    rw [foldInTurn, List.foldl_cons, ← foldInTurn, hrest, getElem?_foldTowards]
    split
    · next hi =>
      rw [h r List.mem_cons_self hi]
      cases p.nodes[i]? <;> rfl
    · rfl

/-- The branch of a check is folded towards the exit of this check. -/
theorem node?_foldInTurn (h : p.Foldable requests) {r : Check × RegularExit}
    (hr : r ∈ requests) :
    (p.foldInTurn requests).node? r.1.branch = (p.node? r.1.branch).map (Node.towards r.2) := by
  induction requests generalizing p with
  | nil => cases hr
  | cons s rest ih =>
    obtain ⟨hrest, hsame⟩ := h.tail
    rw [foldInTurn, List.foldl_cons, ← foldInTurn]
    rcases List.mem_cons.mp hr with rfl | hr
    · have hnone : ∀ t ∈ rest, t.1.branch.index.toNat = r.1.branch.index.toNat →
          t.2 = .unknown := by
        intro t ht heq
        have hbranch : t.1.branch = r.1.branch := rank_inj.mp heq
        exact absurd (List.mem_map.mpr ⟨t, ht, hbranch⟩) (List.nodup_cons.mp h.distinct).1
      have hkept : ((p.foldTowards r.1.branch r.2).foldInTurn rest).node? r.1.branch =
          (p.foldTowards r.1.branch r.2).node? r.1.branch := getElem?_foldInTurn hnone
      rw [hkept, node?_foldTowards, if_pos rfl]
    · rw [ih hrest hr, hsame r hr]

/-- Only nodes are written. -/
theorem foldInTurn_eq (p : Program) (requests : List (Check × RegularExit)) :
    p.foldInTurn requests = { p with nodes := (p.foldInTurn requests).nodes } := by
  induction requests generalizing p with
  | nil => rfl
  | cons r rest ih => exact ih (p.foldTowards r.1.branch r.2)

/-- Folding in turn writes the conditions and nothing else. -/
theorem foldedTo_foldInTurn (h : p.Foldable requests) :
    p.FoldedTo (p.foldInTurn requests) requests where
  frame := p.foldInTurn_eq requests
  left c hc n hn := by
    rw [node?_foldInTurn h hc, hn]
    simp [Node.towards, RegularExit.constant?, Node.withCondition]
  right c hc n hn := by
    rw [node?_foldInTurn h hc, hn]
    simp [Node.towards, RegularExit.constant?, Node.withCondition]
  kept i hi := getElem?_foldInTurn hi

/-- The folded program can be folded in the same places, where nothing is left to do. -/
theorem Foldable.again (h : p.Foldable requests) :
    (p.foldInTurn requests).Foldable requests ∧
      (p.foldInTurn requests).foldInTurn requests = p.foldInTurn requests ∧
      ∀ r ∈ requests, (p.foldInTurn requests).outcomeAlone r =
        if r.2 = .unknown then .ambiguous else .alreadyConstant := by
  have hnode : ∀ r ∈ requests, ∃ n : Node, n.isCondBranch = true ∧
      (p.foldInTurn requests).node? r.1.branch = some (n.towards r.2) := by
    intro r hr
    obtain ⟨n, hn, hbranch⟩ := h.branches r hr
    exact ⟨n, hbranch, by rw [node?_foldInTurn h hr, hn, Option.map_some]⟩
  refine ⟨⟨h.distinct, fun r hr => ?_⟩, ?_, fun r hr => ?_⟩
  · obtain ⟨n, hbranch, hn⟩ := hnode r hr
    exact ⟨n.towards r.2, hn, by rw [Node.isCondBranch_towards, hbranch]⟩
  · have hstep : ∀ r ∈ requests,
        (p.foldInTurn requests).foldTowards r.1.branch r.2 = p.foldInTurn requests := by
      intro r hr
      obtain ⟨n, _, hn⟩ := hnode r hr
      exact foldTowards_eq_self hn (n.towards_towards r.2)
    generalize p.foldInTurn requests = q at hstep
    clear h hnode
    induction requests with
    | nil => rfl
    | cons r rest ih =>
      rw [foldInTurn, List.foldl_cons, ← foldInTurn, hstep r List.mem_cons_self,
        ih fun s hs => hstep s (List.mem_cons_of_mem r hs)]
  · obtain ⟨n, _, hn⟩ := hnode r hr
    rw [outcomeAlone, hn]
    exact n.outcome_towards r.2

end Program

/-- The check that a warning says could not be folded. -/
def Warning.unfolded? : Warning → Option CheckId
  | .ambiguousOutcome check => some check
  | _ => none

/-- The checks that a report warns of because they could not be folded, in its order. -/
def Report.unfolded (r : Report) : List CheckId := r.warnings.filterMap Warning.unfolded?

namespace Findings

theorem unfolded?_warn {path : String} {cause : EvidenceError} {w : Warning}
    (h : w ∈ warn path cause) : w.unfolded? = none := by
  cases cause with
  | absent missing => cases h
  | _ =>
    obtain rfl := List.mem_singleton.mp h
    rfl

/-- Reading the files warns of traces only. -/
theorem unfolded?_load (s : TraceSettings) (t : FileTree) (unit : String) (checks : Inventory) :
    ∀ w ∈ (load s t unit checks).warnings, w.unfolded? = none := by
  have huser : ∀ w ∈ (loadUser s t unit checks).2, w.unfolded? = none := by
    unfold loadUser
    cases s.userTrace? unit with
    | none => exact nofun
    | some path =>
      dsimp only
      cases Trace.read checks.user (traceAt t path) with
      | ok records => exact nofun
      | error cause => exact fun w hw => unfolded?_warn hw
  unfold load
  cases s.sanitizerTrace? unit with
  | none => exact nofun
  | some path =>
    dsimp only
    cases SanitizerEvidence.ofSource checks.sanitizer (traceAt t path) with
    | error cause => exact fun w hw => unfolded?_warn hw
    | ok evidence => exact huser

end Findings

namespace Analysis

variable {s : Settings} {p : Program} {checks : Inventory} {f : Findings}

/-- The phases warn of the trace of the second one only. -/
theorem unfolded?_ledger : ∀ w ∈ (ledger s p checks f).2, w.unfolded? = none := by
  have hpass : ∀ (l : Ledger) (session : Session),
      ∀ w ∈ (coveragePass s p checks f l session).1.2, w.unfolded? = none := by
    intro l session
    unfold coveragePass
    cases f.evidence.sanitizer with
    | none => exact nofun
    | some sanitizer =>
      cases f.trace with
      | none => exact nofun
      | some trace =>
        dsimp only
        cases s.phases.coverage with
        | false => exact nofun
        | true =>
          cases Trace.read checks.sanitizer trace with
          | ok records => exact nofun
          | error cause =>
            intro w hw
            obtain rfl := List.mem_singleton.mp hw
            rfl
  exact hpass _ _

/-- What is listed as eliminated was planned, and its outcome is ambiguous if its exit is not
known. -/
theorem outcome_of_foldAll {k : Classifier} {p q : Program} {plan : List (Check × Reason)}
    {eliminated : List Elimination} (h : foldAll k p plan = .ok (q, eliminated)) :
    ∀ e ∈ eliminated, ∃ c reason, (c, reason) ∈ plan ∧ e.check = c.id ∧
      (e.outcome = .ambiguous ↔ k.exitOf c = .unknown) := by
  induction plan generalizing p eliminated with
  | nil =>
    obtain rfl := (Prod.mk.inj (Except.ok.inj h)).2
    exact nofun
  | cons planned rest ih =>
    obtain ⟨c, reason⟩ := planned
    rw [foldAll] at h
    cases hbranch : p.branchOf c with
    | error cause => simp [Program.eliminate, hbranch, bind, Except.bind] at h
    | ok n =>
      rw [Program.eliminate_eq_ok hbranch] at h
      dsimp only at h
      cases hrest : foldAll k (p.foldTowards c.branch (k.exitOf c)) rest with
      | error cause => simp [hrest, bind, Except.bind] at h
      | ok folded =>
        obtain ⟨q', others⟩ := folded
        rw [hrest] at h
        obtain ⟨rfl, rfl⟩ := Prod.mk.inj (Except.ok.inj h)
        intro e he
        rcases List.mem_cons.mp he with rfl | he
        · exact ⟨c, reason, List.mem_cons_self, rfl, n.outcome_eq_ambiguous_iff (k.exitOf c)⟩
        · obtain ⟨d, reason', hd, hfacts⟩ := ih hrest e he
          exact ⟨d, reason', List.mem_cons_of_mem _ hd, hfacts⟩

/-- A report on findings that bring no such warnings warns of the eliminated checks that could not
be folded, in its order. -/
theorem unfolded_report (setup : Setup) (l : Ledger) {skipped : List Warning}
    (eliminated : List Elimination) (hf : ∀ w ∈ f.warnings, w.unfolded? = none)
    (hskipped : ∀ w ∈ skipped, w.unfolded? = none) :
    (report setup p checks f l skipped eliminated).unfolded =
      (eliminated.filter (·.outcome == .ambiguous)).map Elimination.check := by
  rw [Report.unfolded, report, List.filterMap_append, List.filterMap_append,
    List.filterMap_eq_nil_iff.mpr hf, List.filterMap_eq_nil_iff.mpr hskipped, ambiguities,
    List.filterMap_map, List.nil_append, List.nil_append]
  exact congrFun List.filterMap_eq_map _

end Analysis

/-- A branch on an argument that is repeated three times, a branch that tests nothing, and one that
was folded to its left before. -/
def gates : Program where
  name := "gates"
  nodes := #[
    { id := ⟨0⟩, opcode := .condBranch, operands := [.external ⟨0⟩], block := ⟨0⟩,
      successors := [⟨1⟩, ⟨4⟩] },
    { id := ⟨1⟩, opcode := .condBranch, operands := [.external ⟨0⟩], block := ⟨1⟩,
      successors := [⟨2⟩, ⟨4⟩] },
    { id := ⟨2⟩, opcode := .condBranch, operands := [.external ⟨0⟩], block := ⟨2⟩,
      successors := [⟨3⟩, ⟨4⟩] },
    { id := ⟨3⟩, opcode := .condBranch, operands := [.external ⟨0⟩], block := ⟨3⟩,
      successors := [⟨4⟩, ⟨5⟩] },
    { id := ⟨4⟩, opcode := .condBranch, operands := [], block := ⟨4⟩, successors := [⟨5⟩, ⟨6⟩] },
    { id := ⟨5⟩, opcode := .condBranch, operands := [.constant (.bool true), .external ⟨0⟩],
      block := ⟨5⟩, successors := [⟨5⟩, ⟨6⟩] }]
  blocks := #[
    { id := ⟨0⟩, procedure := ⟨0⟩, successors := [⟨1⟩, ⟨4⟩] },
    { id := ⟨1⟩, procedure := ⟨0⟩, successors := [⟨2⟩, ⟨4⟩] },
    { id := ⟨2⟩, procedure := ⟨0⟩, successors := [⟨3⟩, ⟨4⟩] },
    { id := ⟨3⟩, procedure := ⟨0⟩, successors := [⟨4⟩, ⟨5⟩] },
    { id := ⟨4⟩, procedure := ⟨0⟩, successors := [⟨5⟩, ⟨6⟩] },
    { id := ⟨5⟩, procedure := ⟨0⟩, successors := [⟨5⟩, ⟨6⟩] },
    { id := ⟨6⟩, procedure := ⟨0⟩, successors := [] }]
  procedures := #[
    { id := ⟨0⟩, name := "main", entry := ⟨0⟩, blocks := [⟨0⟩, ⟨1⟩, ⟨2⟩, ⟨3⟩, ⟨4⟩, ⟨5⟩, ⟨6⟩] }]
  externals := #["argument"]

/-- A run with standard settings. The user tests the argument first; of the repeated tests only the
second one has a known exit. -/
def gatesSetup : Setup where
  settings := {}
  classifier :=
    { sanitizer := [⟨⟨3⟩, ⟨3⟩, .sanitizer, .generic⟩, ⟨⟨2⟩, ⟨2⟩, .sanitizer, .generic⟩,
        ⟨⟨1⟩, ⟨1⟩, .sanitizer, .generic⟩]
      user := [⟨⟨100⟩, ⟨0⟩, .user, .generic⟩]
      exits := .ofList [(⟨2⟩, .right)] }
  oracle := .uniform

/-- Folds of four of the branches. -/
def gatesRequests : List (Check × RegularExit) :=
  [(⟨⟨1⟩, ⟨1⟩, .sanitizer, .generic⟩, .unknown), (⟨⟨2⟩, ⟨2⟩, .sanitizer, .generic⟩, .right),
    (⟨⟨4⟩, ⟨4⟩, .sanitizer, .generic⟩, .left), (⟨⟨5⟩, ⟨5⟩, .sanitizer, .generic⟩, .right)]

namespace Setup

variable {setup : Setup} {p : Program}

/-- A run on findings that bring no warnings of their own warns, by ascending number, of the
eliminated checks without a known exit. -/
private theorem gives_unfolded {checks : Inventory} (hb : checks.Belongs p setup.classifier)
    {source : FindingsSource} (hfresh : ∀ f, source = .given f → f.warnings = []) :
    setup.Gives p source fun _ r =>
      r.unfolded.Pairwise (fun a b => a.number < b.number) ∧
      ∀ id, id ∈ r.unfolded ↔ ∃ c ∈ setup.classifier.sanitizer,
        c.id = id ∧ r.Eliminates id ∧ setup.classifier.exitOf c = .unknown := by
  let f := setup.findings p checks source
  have hf : ∀ w ∈ f.warnings, w.unfolded? = none := by
    cases source with
    | given found =>
      have hnone : f.warnings = [] := hfresh found rfl
      rw [hnone]
      exact nofun
    | files t => exact Findings.unfolded?_load _ t p.name checks
  obtain ⟨eliminated, hentries, hfold⟩ :=
    hb.foldAll_plan (Analysis.grounded_ledger setup.settings hb f).entered
  have hrun := Analysis.run_eq_ok_of_ledger (Prod.mk.eta).symm hfold
  refine ⟨_, _, (runFrom_of_belongs hb source).trans hrun, ?_⟩
  generalize hr : Analysis.report setup p checks f _ _ eliminated = r
  have hlists : r.Lists (Analysis.ledger setup.settings p checks f).1 := hr ▸ hentries
  have heliminated : r.eliminated = eliminated := hr ▸ rfl
  have hunfolded : r.unfolded =
      (eliminated.filter (·.outcome == .ambiguous)).map Elimination.check :=
    hr ▸ Analysis.unfolded_report setup _ eliminated hf Analysis.unfolded?_ledger
  have hplanned : ∀ e ∈ eliminated, ∃ c ∈ setup.classifier.sanitizer, c.id = e.check ∧
      (e.outcome = .ambiguous ↔ setup.classifier.exitOf c = .unknown) := by
    intro e he
    obtain ⟨c, reason, hplan, hid, houtcome⟩ := Analysis.outcome_of_foldAll hfold e he
    have hmem : c ∈ (Analysis.plan checks (Analysis.ledger setup.settings p checks f).1).map
        Prod.fst := List.mem_map.mpr ⟨_, hplan, rfl⟩
    rw [hb.map_plan_fst] at hmem
    obtain ⟨_, _, hfind⟩ := List.mem_filterMap.mp hmem
    exact ⟨c, hb.sanitizer_eq ▸ ((hb.sanitizer?_eq_some_iff _ c).mp hfind).1, hid.symm, houtcome⟩
  rw [hunfolded]
  refine ⟨?_, fun id => ?_⟩
  · rw [List.pairwise_map, ← heliminated]
    exact hlists.ascending.filter _
  · simp only [List.mem_map, List.mem_filter, beq_iff_eq]
    constructor
    · rintro ⟨e, ⟨he, hambiguous⟩, rfl⟩
      obtain ⟨c, hc, hid, houtcome⟩ := hplanned e he
      exact ⟨c, hc, hid, ⟨e, heliminated ▸ he, rfl⟩, houtcome.mp hambiguous⟩
    · rintro ⟨c, hc, rfl, ⟨e, he, hid⟩, hexit⟩
      rw [heliminated] at he
      obtain ⟨d, hd, hid', houtcome⟩ := hplanned e he
      obtain rfl := hb.eq_of_id_eq (hb.sanitizer_eq ▸ hd) (hb.sanitizer_eq ▸ hc) (hid'.trans hid)
      exact ⟨e, ⟨he, houtcome.mpr hexit⟩, hid⟩

/-- Checks whose branches are different two-way branches are folded to one program, whatever the
order: it differs from the old one in the conditions of the branches whose exits are known, each
check ends alike, and folding once more in any order changes nothing. A run on findings that bring
no warnings of their own warns, by ascending number, of the eliminated checks without a known
exit. -/
theorem folds_in_any_order (p : Program) :
    (∀ requests, p.Foldable requests →
      ∃ (q : Program) (outcome : Check × RegularExit → FoldOutcome), p.FoldedTo q requests ∧
      (∀ order, order.Perm requests → p.eliminateAll order = .ok (q, order.map outcome)) ∧
      (∀ r ∈ requests, outcome r = .ambiguous ↔ r.2 = .unknown) ∧
      ∀ order, order.Perm requests → q.eliminateAll order =
        .ok (q, order.map fun r => if r.2 = .unknown then .ambiguous else .alreadyConstant)) ∧
    ∀ (setup : Setup) (checks : Inventory) (source : FindingsSource),
      Inventory.take p setup.classifier = .ok checks →
      (∀ f, source = .given f → f.warnings = []) →
      setup.Gives p source fun _ r =>
        r.unfolded.Pairwise (fun a b => a.number < b.number) ∧
        ∀ id, id ∈ r.unfolded ↔ ∃ c ∈ setup.classifier.sanitizer,
          c.id = id ∧ r.Eliminates id ∧ setup.classifier.exitOf c = .unknown := by
  constructor
  · intro requests h
    obtain ⟨hagain, hsame, houtcomes⟩ := h.again
    refine ⟨p.foldInTurn requests, p.outcomeAlone, Program.foldedTo_foldInTurn h, ?_, ?_, ?_⟩
    · intro order horder
      rw [Program.eliminateAll_eq_ok (h.perm horder), Program.foldInTurn_perm h horder]
    · intro r hr
      obtain ⟨n, hn, _⟩ := h.branches r hr
      rw [Program.outcomeAlone, hn]
      exact n.outcome_eq_ambiguous_iff r.2
    · intro order horder
      rw [Program.eliminateAll_eq_ok (hagain.perm horder), Program.foldInTurn_perm hagain horder,
        hsame, List.map_congr_left fun r hr => houtcomes r (horder.mem_iff.mp hr)]
  · intro setup checks source haccepted hfresh
    exact gives_unfolded ((Inventory.take_eq_ok_iff p setup.classifier checks).mp haccepted) hfresh

private theorem foldable_gates : gates.Foldable gatesRequests where
  distinct := by decide
  branches := by
    simp only [gatesRequests, List.forall_mem_cons]
    exact ⟨⟨_, rfl, rfl⟩, ⟨_, rfl, rfl⟩, ⟨_, rfl, rfl⟩, ⟨_, rfl, rfl⟩, nofun⟩

/-- Whatever the order, the branch that tests nothing and the one that was folded the other way are
folded as well, and the first check stays. In the run two of the eliminated checks stay, and the one
with the lower number is warned of first, though it is listed last. -/
theorem gates_folded :
    gates.Foldable gatesRequests ∧
    (∃ q, (∀ order, order.Perm gatesRequests →
        (∃ outcomes, gates.eliminateAll order = .ok (q, outcomes)) ∧
          ∃ outcomes, q.eliminateAll order = .ok (q, outcomes)) ∧
      gates.eliminateAll gatesRequests =
        .ok (q, [.ambiguous, .folded false, .folded true, .folded false]) ∧
      q.nodes.toList.map Node.operands = [[.external ⟨0⟩], [.external ⟨0⟩],
        [.constant (.bool false)], [.external ⟨0⟩], [.constant (.bool true)],
        [.constant (.bool false), .external ⟨0⟩]]) ∧
    gatesSetup.Gives gates (.given {}) fun _ r =>
      r.unfolded = [⟨1⟩, ⟨3⟩] ∧
      (r.unfolded.Pairwise (fun a b => a.number < b.number) ∧
      ∀ id, id ∈ r.unfolded ↔ ∃ c ∈ gatesSetup.classifier.sanitizer,
        c.id = id ∧ r.Eliminates id ∧ gatesSetup.classifier.exitOf c = .unknown) := by
  refine ⟨foldable_gates, ?_, Gives.and (by decide +kernel)
    ((folds_in_any_order gates).2 gatesSetup _ (.given {}) rfl fun f hf => ?_)⟩
  · obtain ⟨q, outcome, _, horder, _, hagain⟩ :=
      (folds_in_any_order gates).1 gatesRequests foldable_gates
    have hgiven : gates.eliminateAll gatesRequests = .ok (gates.foldInTurn gatesRequests,
        [.ambiguous, .folded false, .folded true, .folded false]) := by decide +kernel
    obtain ⟨rfl, _⟩ := Prod.mk.inj (Except.ok.inj ((horder _ (.refl _)).symm.trans hgiven))
    exact ⟨_, fun order h => ⟨⟨_, horder order h⟩, _, hagain order h⟩, hgiven, by decide +kernel⟩
  · cases hf
    rfl

end Setup

end GuardElision
