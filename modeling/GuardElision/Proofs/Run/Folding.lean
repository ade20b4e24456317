import GuardElision.Run.Analysis

/-!
# What folding does to a program

Folding a check touches the condition of its branch and nothing else. A list of folds
therefore changes a node exactly as far as the checks of the list have their branch there,
one after the other, and the last of them that knows its exit decides the condition. Folding
never fails on checks whose branches are two-way branches of the program, because a folded
branch stays one.
-/

namespace GuardElision

/-- A branch folded towards an exit; nothing is known to be done for an unknown one. -/
def Node.towards (exit : RegularExit) (n : Node) : Node :=
  match exit.constant? with
  | none => n
  | some value => n.withCondition value

/-- What becomes of a branch that is folded towards an exit. -/
def Node.outcome (exit : RegularExit) (n : Node) : FoldOutcome :=
  match exit.constant? with
  | none => .ambiguous
  | some value =>
    if n.operands.head? = some (.constant (.bool value)) then .alreadyConstant
    else .folded value

namespace Node

/-- A branch that tests a constant already is not changed by setting it. -/
theorem withCondition_eq_self_iff (n : Node) (value : Bool) :
    n.withCondition value = n ↔ n.operands.head? = some (.constant (.bool value)) := by
  obtain ⟨id, opcode, operands, block, name, successors⟩ := n
  cases operands <;> simp [withCondition, eq_comm]

/-- The last condition that is set counts. -/
@[simp] theorem withCondition_withCondition (n : Node) (first last : Bool) :
    (n.withCondition first).withCondition last = n.withCondition last := by
  simp [withCondition]

/-- Folding a branch once more towards the same exit does nothing. -/
@[simp] theorem towards_towards (n : Node) (exit : RegularExit) :
    (n.towards exit).towards exit = n.towards exit := by
  unfold towards
  cases exit.constant? <;> simp

/-- A folded branch is still a two-way branch. -/
@[simp] theorem isCondBranch_towards (n : Node) (exit : RegularExit) :
    (n.towards exit).isCondBranch = n.isCondBranch := by
  unfold towards
  split <;> rfl

/-- A folded branch stays in its block. -/
@[simp] theorem block_towards (n : Node) (exit : RegularExit) :
    (n.towards exit).block = n.block := by
  unfold towards
  split <;> rfl

/-- A two-way branch that is folded towards a known exit tests a constant. -/
theorem condition?_towards {n : Node} (hn : n.isCondBranch = true) {exit : RegularExit}
    {value : Bool} (hexit : exit.constant? = some value) :
    (n.towards exit).condition? = some (.constant (.bool value)) := by
  rw [condition?, isCondBranch_towards, if_pos hn, towards, hexit]
  rfl

end Node

/-- The constant that the last known one of some exits leads to. -/
def RegularExit.lastConstant? (exits : List RegularExit) : Option Bool :=
  (exits.filterMap constant?).getLast?

theorem RegularExit.lastConstant?_cons (exit : RegularExit) (exits : List RegularExit) :
    lastConstant? (exit :: exits) = (lastConstant? exits).or exit.constant? := by
  cases hexit : exit.constant? <;> simp [lastConstant?, hexit, List.getLast?_cons]

namespace Node

/-- A branch folded towards several exits in turn. -/
def towardsAll (exits : List RegularExit) (n : Node) : Node :=
  exits.foldl (fun n exit => n.towards exit) n

@[simp] theorem towardsAll_nil (n : Node) : n.towardsAll [] = n := rfl

@[simp] theorem towardsAll_cons (exit : RegularExit) (exits : List RegularExit) (n : Node) :
    n.towardsAll (exit :: exits) = (n.towards exit).towardsAll exits := rfl

@[simp] theorem isCondBranch_towardsAll (exits : List RegularExit) (n : Node) :
    (n.towardsAll exits).isCondBranch = n.isCondBranch := by
  induction exits generalizing n with
  | nil => rfl
  | cons exit exits ih => rw [towardsAll_cons, ih, isCondBranch_towards]

@[simp] theorem block_towardsAll (exits : List RegularExit) (n : Node) :
    (n.towardsAll exits).block = n.block := by
  induction exits generalizing n with
  | nil => rfl
  | cons exit exits ih => rw [towardsAll_cons, ih, block_towards]

/-- Folding a branch several times towards the same exit is folding it once. -/
theorem towardsAll_of_forall_eq {exits : List RegularExit} {exit : RegularExit} (hne : exits ≠ [])
    (h : ∀ e ∈ exits, e = exit) (n : Node) : n.towardsAll exits = n.towards exit := by
  induction exits generalizing n with
  | nil => exact absurd rfl hne
  | cons e rest ih =>
    obtain rfl := h e List.mem_cons_self
    rw [towardsAll_cons]
    by_cases hrest : rest = []
    · rw [hrest, towardsAll_nil]
    · rw [ih hrest (fun d hd => h d (List.mem_cons_of_mem e hd)), towards_towards]

/-- Of several folds of one branch the last that knows its exit counts. -/
theorem towardsAll_eq (exits : List RegularExit) (n : Node) : n.towardsAll exits =
    match RegularExit.lastConstant? exits with
    | none => n
    | some value => n.withCondition value := by
  induction exits generalizing n with
  | nil => rfl
  | cons exit exits ih =>
    rw [towardsAll_cons, ih, RegularExit.lastConstant?_cons]
    cases hexit : exit.constant? <;> cases RegularExit.lastConstant? exits <;>
      simp [towards, hexit]

/-- A branch is the same after several folds when it tests what the last one that knows its
exit sets. -/
theorem towardsAll_eq_self_iff (exits : List RegularExit) (n : Node) :
    n.towardsAll exits = n ↔ ∀ value, RegularExit.lastConstant? exits = some value →
      n.operands.head? = some (.constant (.bool value)) := by
  rw [towardsAll_eq]
  cases RegularExit.lastConstant? exits with
  | none => simp
  | some value => simp [withCondition_eq_self_iff]

end Node

/-- The exits of the checks that have their branch at a node, in order. -/
def Classifier.exitsAt (k : Classifier) (checks : List Check) (branch : NodeId) :
    List RegularExit :=
  (checks.filter (·.branch == branch)).map k.exitOf

namespace Program

theorem branchOf_eq_ok_iff (p : Program) (c : Check) (n : Node) :
    p.branchOf c = .ok n ↔ p.node? c.branch = some n ∧ n.isCondBranch = true := by
  unfold branchOf
  cases p.node? c.branch with
  | none => simp
  | some m =>
    by_cases hm : m.isCondBranch = true
    · simp only [hm, if_true, Except.ok.injEq, Option.some.injEq]
      exact ⟨fun h => ⟨h, h ▸ hm⟩, fun h => h.1⟩
    · simp only [hm, Bool.false_eq_true, if_false, reduceCtorEq, Option.some.injEq, false_iff]
      rintro ⟨rfl, h⟩
      exact hm h

/-- The program with one of its nodes folded towards an exit. -/
def foldTowards (p : Program) (branch : NodeId) (exit : RegularExit) : Program :=
  { p with nodes := p.nodes.modify branch.index.toNat (Node.towards exit) }

/-- Folding changes the branch and no other node. -/
theorem node?_foldTowards (p : Program) (branch id : NodeId) (exit : RegularExit) :
    (p.foldTowards branch exit).node? id =
      if id = branch then (p.node? id).map (Node.towards exit) else p.node? id := by
  have hid : branch.index.toNat = id.index.toNat ↔ id = branch := by
    rw [UInt32.toNat_inj]
    exact ⟨fun h => by cases id; cases branch; exact congrArg NodeId.mk h.symm, fun h => h ▸ rfl⟩
  simp only [node?, foldTowards, Array.getElem?_modify, hid]

/-- Folding writes the folded node in the place of the old one. -/
theorem foldTowards_eq_set {p : Program} {branch : NodeId} {n : Node} (h : p.node? branch = some n)
    (exit : RegularExit) : p.foldTowards branch exit =
      { p with nodes := p.nodes.setIfInBounds branch.index.toNat (n.towards exit) } := by
  have hget : p.nodes[branch.index.toNat]? = some n := h
  have hlt : branch.index.toNat < p.nodes.size := (Array.getElem?_eq_some_iff.mp hget).1
  have hnodes : p.nodes.modify branch.index.toNat (Node.towards exit) =
      p.nodes.setIfInBounds branch.index.toNat (n.towards exit) := by
    apply Array.ext_getElem?
    intro i
    by_cases hi : branch.index.toNat = i
    · subst hi
      rw [Array.getElem?_modify, if_pos rfl, hget, Option.map_some,
        Array.getElem?_setIfInBounds_self_of_lt hlt]
    · simp [Array.getElem?_modify, hi]
  rw [foldTowards, hnodes]

/-- Folding towards what a branch tests already changes nothing. -/
theorem foldTowards_eq_self {p : Program} {branch : NodeId} {n : Node} {exit : RegularExit}
    (h : p.node? branch = some n) (hn : n.towards exit = n) : p.foldTowards branch exit = p := by
  have hget : p.nodes[branch.index.toNat]? = some n := h
  have hnodes : p.nodes.modify branch.index.toNat (Node.towards exit) = p.nodes := by
    apply Array.ext_getElem?
    intro i
    by_cases hi : branch.index.toNat = i
    · subst hi
      simp [Array.getElem?_modify, hget, hn]
    · simp [Array.getElem?_modify, hi]
  rw [foldTowards, hnodes]

/-- Folding a check that has its branch in the program succeeds and folds that branch. -/
theorem eliminate_eq_ok {p : Program} {c : Check} {n : Node} (h : p.branchOf c = .ok n)
    (exit : RegularExit) :
    p.eliminate c exit = .ok (p.foldTowards c.branch exit, n.outcome exit) := by
  have hnode := ((p.branchOf_eq_ok_iff c n).mp h).1
  simp only [eliminate, h, Node.outcome, bind, Except.bind, pure, Except.pure]
  cases hexit : exit.constant? with
  | none =>
    have hsame : n.towards exit = n := by simp [Node.towards, hexit]
    rw [foldTowards_eq_self hnode hsame]
  | some value =>
    have htowards : n.towards exit = n.withCondition value := by simp [Node.towards, hexit]
    dsimp only
    split
    · next hhead =>
      have hsame := htowards.trans ((n.withCondition_eq_self_iff value).mpr hhead)
      rw [foldTowards_eq_self hnode hsame]
    · rw [foldTowards_eq_set hnode, htowards]

/-- A check keeps its two-way branch when some branch is folded. -/
theorem branchOf_foldTowards {p : Program} {c : Check} (h : ∃ n, p.branchOf c = .ok n)
    (branch : NodeId) (exit : RegularExit) :
    ∃ n, (p.foldTowards branch exit).branchOf c = .ok n := by
  obtain ⟨n, hn⟩ := h
  obtain ⟨hnode, hbranch⟩ := (p.branchOf_eq_ok_iff c n).mp hn
  simp only [branchOf_eq_ok_iff, node?_foldTowards, hnode]
  split
  · exact ⟨n.towards exit, rfl, by rw [Node.isCondBranch_towards, hbranch]⟩
  · exact ⟨n, rfl, hbranch⟩

/-- The program with the branches of some checks folded in turn. -/
def foldEach (p : Program) (k : Classifier) (checks : List Check) : Program :=
  checks.foldl (fun p c => p.foldTowards c.branch (k.exitOf c)) p

/-- Each node is folded as often as a check has its branch there. -/
theorem node?_foldEach (p : Program) (k : Classifier) (checks : List Check) (id : NodeId) :
    (p.foldEach k checks).node? id =
      (p.node? id).map (Node.towardsAll (k.exitsAt checks id)) := by
  induction checks generalizing p with
  | nil => cases hnode : p.node? id <;> simp [foldEach, Classifier.exitsAt, hnode]
  | cons c rest ih =>
    have hrest := ih (p.foldTowards c.branch (k.exitOf c))
    rw [foldEach, List.foldl_cons, ← foldEach, hrest, node?_foldTowards]
    by_cases hid : id = c.branch
    · subst hid
      cases p.node? c.branch <;> simp [Classifier.exitsAt]
    · have hne : ¬ c.branch = id := fun h => hid h.symm
      simp [Classifier.exitsAt, hid, hne]

/-- A node that is no branch of the folded checks stays as it is. -/
theorem node?_foldEach_of_forall_ne {p : Program} (k : Classifier) {checks : List Check}
    {id : NodeId} (h : ∀ c ∈ checks, c.branch ≠ id) :
    (p.foldEach k checks).node? id = p.node? id := by
  have hexits : k.exitsAt checks id = [] := by
    simpa [Classifier.exitsAt] using h
  rw [node?_foldEach, hexits]
  cases p.node? id <;> rfl

/-- Folding writes nodes and adds none. -/
theorem foldEach_eq (p : Program) (k : Classifier) (checks : List Check) :
    ∃ nodes : Array Node, nodes.size = p.nodes.size ∧ p.foldEach k checks = { p with nodes } := by
  induction checks generalizing p with
  | nil => exact ⟨p.nodes, rfl, rfl⟩
  | cons c rest ih =>
    obtain ⟨nodes, hsize, hrest⟩ := ih (p.foldTowards c.branch (k.exitOf c))
    refine ⟨nodes, ?_, ?_⟩
    · rw [hsize, foldTowards, Array.size_modify]
    · rw [foldEach, List.foldl_cons, ← foldEach, hrest]
      rfl

/-- Checks whose branches test already what they are folded to can be folded again. -/
theorem foldEach_eq_self {p : Program} {k : Classifier} {checks : List Check}
    (h : ∀ c ∈ checks, ∃ n, p.node? c.branch = some n ∧ n.towards (k.exitOf c) = n) :
    p.foldEach k checks = p := by
  induction checks with
  | nil => rfl
  | cons c rest ih =>
    obtain ⟨n, hnode, hn⟩ := h c List.mem_cons_self
    have hrest := ih fun d hd => h d (List.mem_cons_of_mem c hd)
    rw [foldEach, List.foldl_cons, foldTowards_eq_self hnode hn, ← foldEach, hrest]

theorem branchOf_foldEach {p : Program} {c : Check} (h : ∃ n, p.branchOf c = .ok n)
    (k : Classifier) (checks : List Check) : ∃ n, (p.foldEach k checks).branchOf c = .ok n := by
  induction checks generalizing p with
  | nil => exact h
  | cons d rest ih => exact ih (branchOf_foldTowards h d.branch (k.exitOf d))

end Program

/-- Folding checks that have their branches in the program succeeds, folds them all, and lists
them with their reasons. -/
theorem Analysis.foldAll_eq_ok (k : Classifier) {p : Program} {plan : List (Check × Reason)}
    (h : ∀ e ∈ plan, ∃ n, p.branchOf e.1 = .ok n) : ∃ eliminated,
      foldAll k p plan = .ok (p.foldEach k (plan.map (·.1)), eliminated) ∧
      eliminated.map (fun e => (e.check, e.reason)) = plan.map (fun e => (e.1.id, e.2)) := by
  induction plan generalizing p with
  | nil => exact ⟨[], rfl, rfl⟩
  | cons e rest ih =>
    obtain ⟨c, reason⟩ := e
    obtain ⟨n, hn⟩ := h (c, reason) List.mem_cons_self
    have hrest : ∀ e ∈ rest, ∃ m, (p.foldTowards c.branch (k.exitOf c)).branchOf e.1 = .ok m :=
      fun e he => Program.branchOf_foldTowards (h e (List.mem_cons_of_mem _ he)) _ _
    obtain ⟨eliminated, hfold, hlist⟩ := ih hrest
    refine ⟨⟨c.id, reason, n.outcome (k.exitOf c)⟩ :: eliminated, ?_, ?_⟩
    · simp only [foldAll, Program.eliminate_eq_ok hn, hfold]
      rfl
    · simp [hlist]

end GuardElision
