import GuardElision.Proofs.Flow.Dominance
import GuardElision.Proofs.Program.Builder
import Mathlib.Data.List.Chain

/-!
# Dominance by paths

A path of a procedure is a chain of its blocks in which each one jumps to the next; a block of
the procedure that jumps to none of its blocks is an exit. In a built program one block
dominates another exactly when some path leads from the entry to the other block and all such
paths contain the first, and post-dominates it exactly when some path leads from there to an
exit and all such paths contain it.

A path is a walk through the flow graph of the procedure. What remains is that the dominance of
a built program knows the procedure of each block: procedures are entered under their own
identifiers, and no two of them list the same block.
-/

namespace GuardElision

namespace Program

/-- One block can continue in another. -/
def Jumps (p : Program) (a b : BlockId) : Prop :=
  ∃ block, p.block? a = some block ∧ b ∈ block.successors

/-- A path inside a procedure, with all blocks on it from first to last. -/
structure Path (p : Program) (f : Procedure) (a : BlockId) (visited : List BlockId)
    (b : BlockId) : Prop where
  starts : visited.head? = some a
  ends : visited.getLast? = some b
  inside : ∀ x ∈ visited, x ∈ f.blocks
  jumps : visited.IsChain p.Jumps

/-- A procedure ends in a block that jumps to none of its blocks. -/
def IsExit (p : Program) (f : Procedure) (b : BlockId) : Prop :=
  b ∈ f.blocks ∧ ∀ c ∈ f.blocks, ¬ p.Jumps b c

/-- The flow graph of a procedure. -/
def flowOf (p : Program) (f : Procedure) : FlowGraph where
  entry := f.entry
  blocks := f.blocks
  jumps := f.blocks.filterMap fun b =>
    (p.block? b).map fun block => (b, block.successors.filter f.blocks.contains)

theorem of?_eq_flowOf {p : Program} {f : Procedure} (hf : p.procedure? f.id = some f)
    (hentry : f.entry ∈ f.blocks) : FlowGraph.of? p f.id = some (p.flowOf f) := by
  simp [FlowGraph.of?, hf, hentry, flowOf]

section Flow

variable (p : Program) (f : Procedure)

private theorem lookup_filterMap (blocks : List BlockId) (h : Block → List BlockId) (b : BlockId) :
    (blocks.filterMap fun b => (p.block? b).map fun block => (b, h block)).lookup b =
      if b ∈ blocks then (p.block? b).map h else none := by
  induction blocks with
  | nil => rfl
  | cons c rest ih =>
    by_cases hbc : b = c
    · subst hbc
      cases hb : p.block? b with
      | none => simp [hb, ih]
      | some block => simp [hb]
    · have hne : (b == c) = false := by simpa using hbc
      cases hc : p.block? c with
      | none => simp [hc, hbc, ih]
      | some block => simp [hc, hbc, hne, ih, List.lookup_cons]

/-- The jumps of the flow graph are those between blocks of the procedure. -/
theorem mem_next_flowOf_iff (b c : BlockId) :
    c ∈ (p.flowOf f).next b ↔ b ∈ f.blocks ∧ c ∈ f.blocks ∧ p.Jumps b c := by
  rw [FlowGraph.next, flowOf, lookup_filterMap]
  by_cases hb : b ∈ f.blocks
  · cases hblock : p.block? b with
    | none => simp [hb, Jumps, hblock]
    | some block => simp [hb, Jumps, hblock, and_comm]
  · simp [hb]

/-- The exits of the flow graph are those of the procedure, if all its blocks exist. -/
theorem mem_exits_flowOf_iff (hall : ∀ b ∈ f.blocks, ∃ block, p.block? b = some block)
    (b : BlockId) : b ∈ (p.flowOf f).exits ↔ p.IsExit f b := by
  simp only [FlowGraph.exits, flowOf, List.mem_map, List.mem_filter, List.mem_filterMap,
    Option.map_eq_some_iff, IsExit, Jumps]
  constructor
  · rintro ⟨_, ⟨⟨c, hc, block, hblock, rfl⟩, hempty⟩, rfl⟩
    refine ⟨hc, ?_⟩
    rintro d hd ⟨block', hblock', hjump⟩
    obtain rfl := Option.some.inj (hblock.symm.trans hblock')
    simp only [List.isEmpty_iff, List.filter_eq_nil_iff] at hempty
    exact hempty d hjump (by simpa using hd)
  · rintro ⟨hb, hnone⟩
    obtain ⟨block, hblock⟩ := hall b hb
    refine ⟨_, ⟨⟨b, hb, block, hblock, rfl⟩, ?_⟩, rfl⟩
    simp only [List.isEmpty_iff, List.filter_eq_nil_iff]
    intro c hjump hc
    exact hnone c (by simpa using hc) ⟨block, hblock, hjump⟩

/-- A path of a procedure is a walk through its flow graph. -/
theorem walk_flowOf_iff (a b : BlockId) (visited : List BlockId) :
    (p.flowOf f).Walk a visited b ↔ p.Path f a visited b := by
  constructor
  · intro h
    induction h with
    | @stay a ha => exact ⟨rfl, rfl, List.forall_mem_singleton.mpr ha, .singleton a⟩
    | @jump a b c visited ha hn _ ih =>
      obtain ⟨_, _, hjump⟩ := (p.mem_next_flowOf_iff f a b).mp hn
      obtain ⟨rest, rfl⟩ : ∃ rest, visited = b :: rest := List.head?_eq_some_iff.mp ih.starts
      refine ⟨rfl, ih.ends, ?_, .cons_cons hjump ih.jumps⟩
      exact List.forall_mem_cons.mpr ⟨ha, ih.inside⟩
  · rintro ⟨hstarts, hends, hinside, hjumps⟩
    obtain ⟨rest, rfl⟩ := List.head?_eq_some_iff.mp hstarts
    induction rest generalizing a with
    | nil =>
      obtain rfl : a = b := by simpa using hends
      exact .stay (hinside a List.mem_cons_self)
    | cons c rest ih =>
      obtain ⟨hjump, hrest⟩ := List.isChain_cons_cons.mp hjumps
      have hin := List.forall_mem_cons.mp hinside
      have hc := hin.2 c List.mem_cons_self
      exact .jump hin.1 ((p.mem_next_flowOf_iff f a c).mpr ⟨hin.1, hc, hjump⟩)
        (ih c rfl hends hin.2 hrest)

/-- The blocks entered are those that a path from the entry leads to. -/
theorem entered_flowOf_iff (b : BlockId) :
    (p.flowOf f).Entered b ↔ ∃ visited, p.Path f f.entry visited b :=
  exists_congr fun visited => walk_flowOf_iff p f f.entry b visited

theorem dominates_flowOf_iff (a b : BlockId) : (p.flowOf f).Dominates a b ↔
    (∃ visited, p.Path f f.entry visited b) ∧
      ∀ visited, p.Path f f.entry visited b → a ∈ visited := by
  simp only [FlowGraph.Dominates, entered_flowOf_iff, walk_flowOf_iff]
  rfl

theorem postDominates_flowOf_iff (hall : ∀ b ∈ f.blocks, ∃ block, p.block? b = some block)
    (a b : BlockId) : (p.flowOf f).PostDominates a b ↔
      (∃ e, p.IsExit f e ∧ ∃ visited, p.Path f b visited e) ∧
        ∀ e, p.IsExit f e → ∀ visited, p.Path f b visited e → a ∈ visited := by
  simp only [FlowGraph.PostDominates, FlowGraph.Ends, walk_flowOf_iff, mem_exits_flowOf_iff p f hall]

end Flow

end Program

namespace Dominance

section Owners

variable {p : Program}

private theorem lookup_owners_add (d : Dominance) (f : Procedure) (b : BlockId) :
    (d.add p f).owners.lookup b =
      if (FlowGraph.of? p f.id).isSome = true ∧ b ∈ f.blocks then some f.id
      else d.owners.lookup b := by
  rw [Dominance.add.eq_def]
  cases FlowGraph.of? p f.id with
  | none => simp
  | some g => simp [lookup_map_append]

/-- A block that some procedures list, all under one identifier, is entered under it. -/
private theorem lookup_owners_foldl (fs : List Procedure) (d : Dominance) {b : BlockId}
    {id : ProcedureId} (hflow : ∀ f ∈ fs, b ∈ f.blocks → (FlowGraph.of? p f.id).isSome = true)
    (hid : ∀ f ∈ fs, b ∈ f.blocks → f.id = id) :
    (fs.foldl (add p) d).owners.lookup b =
      if ∃ f ∈ fs, b ∈ f.blocks then some id else d.owners.lookup b := by
  induction fs generalizing d with
  | nil => simp
  | cons f fs ih =>
    have hrest := ih (d.add p f) (fun g hg => hflow g (List.mem_cons_of_mem f hg))
      fun g hg => hid g (List.mem_cons_of_mem f hg)
    rw [List.foldl_cons, hrest]
    by_cases hb : b ∈ f.blocks
    · have hentered : (d.add p f).owners.lookup b = some id := by
        rw [lookup_owners_add, if_pos ⟨hflow f List.mem_cons_self hb, hb⟩,
          hid f List.mem_cons_self hb]
      simp [hb, hentered]
    · simp [hb, lookup_owners_add]

variable (hp : p.Tidy) (hfit : p.procedures.size ≤ UInt32.size)

include hp hfit

/-- A procedure that lists a block has a flow graph. -/
private theorem of?_eq_of_mem {f : Procedure} (hf : f ∈ p.procedures) {b : BlockId}
    (hb : b ∈ f.blocks) : FlowGraph.of? p f.id = some (p.flowOf f) := by
  obtain ⟨i, hi⟩ := Array.mem_iff_getElem?.mp hf
  exact Program.of?_eq_flowOf (hp.procedure?_id hfit hf)
    ((hp i f hi).entry_mem (List.ne_nil_of_mem hb))

/-- The owner of a block is the procedure that lists it. -/
theorem lookup_owners_iff (b : BlockId) (id : ProcedureId) :
    (ofProgram p).owners.lookup b = some id ↔ ∃ f ∈ p.procedures, b ∈ f.blocks ∧ f.id = id := by
  have hflow : ∀ f ∈ p.procedures.toList, b ∈ f.blocks →
      (FlowGraph.of? p f.id).isSome = true := by
    intro f hf hb
    rw [of?_eq_of_mem hp hfit (Array.mem_toList_iff.mp hf) hb]
    rfl
  by_cases hlisted : ∃ f ∈ p.procedures.toList, b ∈ f.blocks
  · obtain ⟨f, hf, hb⟩ := hlisted
    have honly : ∀ g ∈ p.procedures.toList, b ∈ g.blocks → g.id = f.id := by
      intro g hg hbg
      rw [hp.eq_of_mem_blocks hfit (Array.mem_toList_iff.mp hg) (Array.mem_toList_iff.mp hf) hbg hb]
    rw [ofProgram, lookup_owners_foldl _ _ hflow honly, if_pos ⟨f, hf, hb⟩]
    constructor
    · intro h
      exact ⟨f, Array.mem_toList_iff.mp hf, hb, Option.some.inj h⟩
    · rintro ⟨g, hg, hbg, rfl⟩
      rw [honly g (Array.mem_toList_iff.mpr hg) hbg]
  · have hnone : ∀ g ∈ p.procedures.toList, b ∈ g.blocks → g.id = id :=
      fun g hg hbg => absurd ⟨g, hg, hbg⟩ hlisted
    rw [ofProgram, lookup_owners_foldl _ _ hflow hnone, if_neg hlisted]
    constructor
    · intro h
      cases h
    · rintro ⟨g, hg, hbg, _⟩
      exact absurd ⟨g, Array.mem_toList_iff.mpr hg, hbg⟩ hlisted

/-- Two blocks share the flow graph of the procedure that lists them both. -/
theorem share_iff (g : FlowGraph) (a b : BlockId) :
    Share p g a b ↔ ∃ f ∈ p.procedures, a ∈ f.blocks ∧ b ∈ f.blocks ∧ p.flowOf f = g := by
  simp only [Share, lookup_owners_iff hp hfit]
  constructor
  · rintro ⟨id, ⟨f, hf, ha, rfl⟩, ⟨f', hf', hb, hid⟩, hg⟩
    have hfind := hp.procedure?_id hfit hf'
    rw [hid, hp.procedure?_id hfit hf] at hfind
    obtain rfl := Option.some.inj hfind
    rw [of?_eq_of_mem hp hfit hf ha] at hg
    exact ⟨f, hf, ha, hb, Option.some.inj hg⟩
  · rintro ⟨f, hf, ha, hb, rfl⟩
    exact ⟨f.id, ⟨f, hf, ha, rfl⟩, ⟨f, hf, hb, rfl⟩, of?_eq_of_mem hp hfit hf ha⟩

end Owners

/-- In a built program, as long as there is an identifier for each block and procedure, dominance
and post-dominance are what all paths of a procedure have in common: from its entry to a block,
and from a block to its exits. -/
theorem iff_paths {p : Program} (hbuilt : p.Built) (hfit : p.Fits) (a b : BlockId) :
    ((ofProgram p).dominates a b = true ↔
      ∃ f ∈ p.procedures, a ∈ f.blocks ∧ b ∈ f.blocks ∧
        (∃ visited, p.Path f f.entry visited b) ∧
        ∀ visited, p.Path f f.entry visited b → a ∈ visited) ∧
    ((ofProgram p).postDominates a b = true ↔
      ∃ f ∈ p.procedures, a ∈ f.blocks ∧ b ∈ f.blocks ∧
        (∃ e, p.IsExit f e ∧ ∃ visited, p.Path f b visited e) ∧
        ∀ e, p.IsExit f e → ∀ visited, p.Path f b visited e → a ∈ visited) := by
  obtain ⟨name, calls, rfl⟩ := hbuilt
  have htidy := Build.tidy_grow hfit.1
  have hall : ∀ f ∈ (Build.grow name calls).procedures, ∀ b ∈ f.blocks,
      ∃ block, (Build.grow name calls).block? b = some block := by
    intro f hf b hb
    obtain ⟨i, hi⟩ := Array.mem_iff_getElem?.mp hf
    obtain ⟨block, hblock, _⟩ := (htidy i f hi).owns b hb
    exact ⟨block, hblock⟩
  constructor
  · rw [dominates_iff]
    simp only [share_iff htidy hfit.2]
    constructor
    · rintro ⟨_, ⟨f, hf, ha, hb, rfl⟩, h⟩
      exact ⟨f, hf, ha, hb, (Program.dominates_flowOf_iff _ f a b).mp h⟩
    · rintro ⟨f, hf, ha, hb, h⟩
      exact ⟨_, ⟨f, hf, ha, hb, rfl⟩, (Program.dominates_flowOf_iff _ f a b).mpr h⟩
  · rw [postDominates_iff]
    simp only [share_iff htidy hfit.2]
    constructor
    · rintro ⟨_, ⟨f, hf, ha, hb, rfl⟩, h⟩
      exact ⟨f, hf, ha, hb, (Program.postDominates_flowOf_iff _ f (hall f hf) a b).mp h⟩
    · rintro ⟨f, hf, ha, hb, h⟩
      exact ⟨_, ⟨f, hf, ha, hb, rfl⟩,
        (Program.postDominates_flowOf_iff _ f (hall f hf) a b).mpr h⟩

/-- The entry jumps into both halves of a loop, and both leave it for a last block that hands over
to another procedure. No path leads to the block that only repeats itself. -/
def crossroads : Program :=
  Build.grow "crossroads" [
    .procedure "main", .procedure "other",
    .block ⟨0⟩ none, .block ⟨0⟩ none, .block ⟨0⟩ none, .block ⟨0⟩ (some "last"), .block ⟨0⟩ none,
    .block ⟨1⟩ none,
    .jump ⟨0⟩ ⟨1⟩, .jump ⟨0⟩ ⟨2⟩, .jump ⟨1⟩ ⟨2⟩, .jump ⟨2⟩ ⟨1⟩, .jump ⟨1⟩ ⟨3⟩, .jump ⟨2⟩ ⟨3⟩,
    .jump ⟨3⟩ ⟨5⟩, .jump ⟨4⟩ ⟨4⟩]

/-- The last block is on all paths from the loop to an exit, a half of the loop is not on all paths
to the last block, and the entry does not dominate the block to which no path leads. -/
theorem crossroads_paths :
    crossroads.Built ∧ crossroads.Fits ∧
    (∃ f ∈ crossroads.procedures, ⟨3⟩ ∈ f.blocks ∧ ⟨1⟩ ∈ f.blocks ∧
      (∃ e, crossroads.IsExit f e ∧ ∃ visited, crossroads.Path f ⟨1⟩ visited e) ∧
      ∀ e, crossroads.IsExit f e → ∀ visited, crossroads.Path f ⟨1⟩ visited e → ⟨3⟩ ∈ visited) ∧
    (¬ ∃ f ∈ crossroads.procedures, ⟨1⟩ ∈ f.blocks ∧ ⟨3⟩ ∈ f.blocks ∧
      (∃ visited, crossroads.Path f f.entry visited ⟨3⟩) ∧
      ∀ visited, crossroads.Path f f.entry visited ⟨3⟩ → ⟨1⟩ ∈ visited) ∧
    ¬ ∃ f ∈ crossroads.procedures, ⟨0⟩ ∈ f.blocks ∧ ⟨4⟩ ∈ f.blocks ∧
      (∃ visited, crossroads.Path f f.entry visited ⟨4⟩) ∧
      ∀ visited, crossroads.Path f f.entry visited ⟨4⟩ → ⟨0⟩ ∈ visited := by
  have hbuilt : crossroads.Built := ⟨_, _, rfl⟩
  have hfit : crossroads.Fits := by decide +kernel
  refine ⟨hbuilt, hfit, (iff_paths hbuilt hfit ⟨3⟩ ⟨1⟩).2.mp (by decide +kernel), ?_, ?_⟩
  · rw [← (iff_paths hbuilt hfit ⟨1⟩ ⟨3⟩).1]
    decide +kernel
  · rw [← (iff_paths hbuilt hfit ⟨0⟩ ⟨4⟩).1]
    decide +kernel

end Dominance

end GuardElision
