import GuardElision.Proofs.Flow.Paths

/-!
# Immediate dominators

The look-up of an immediate dominator walks through the other dominators of a block and keeps the
later of any two. That the block at which the walk ends has all the others before it, and that it is
the only one of this kind, is a matter of dominance itself: what dominates a block is in line. So in
a built program the immediate dominator is the closest other dominator, only the entry and the
blocks that no path leads to have none, and the immediate dominators of a reachable block, taken one
after the other, are all of its dominators. The same holds of post-dominators, of which a block has
none when its paths to the exits have nothing else in common.
-/

namespace GuardElision

namespace DominanceTable

/-- Only blocks with a row stand before others. -/
private theorem mem_rows_of_relates {t : DominanceTable} {a b : BlockId}
    (h : t.relates a b = true) : a ∈ t.rows.map (·.1) := by
  rw [relates] at h
  cases hrow : t.rows.lookup a with
  | none => simp [hrow] at h
  | some row =>
    obtain ⟨front, back, hrows, _⟩ := List.lookup_eq_some_iff.mp hrow
    exact List.mem_map.mpr ⟨(a, row), by simp [hrows], rfl⟩

section Closest

variable {t : DominanceTable} {source : BlockId → Prop} {step : BlockId → BlockId → Prop}
  (h : ∀ a b, t.relates a b = true ↔ InTheWay source step a b)

include h

/-- The walk ends at a block that all the others stand before. -/
theorem closest?_spec (b : BlockId) :
    (t.closest? b = none ∧ ∀ a, t.strictly a b = false) ∨
      ∃ d, t.closest? b = some d ∧ t.strictly d b = true ∧
        ∀ a, t.strictly a b = true → t.relates a d = true := by
  have hbefore : ∀ a, a ∈ (t.rows.map (·.1)).filter (fun a => t.strictly a b) ↔
      t.strictly a b = true := by
    intro a
    rw [List.mem_filter]
    refine and_iff_right_of_imp fun ha => ?_
    exact mem_rows_of_relates ((Bool.and_eq_true _ _).mp ha).2
  rw [closest?]
  generalize (t.rows.map (·.1)).filter (fun a => t.strictly a b) = before at hbefore
  cases before with
  | nil =>
    left
    exact ⟨rfl, fun a => Bool.eq_false_iff.mpr fun ha => List.not_mem_nil ((hbefore a).mpr ha)⟩
  | cons first rest =>
    have hway : ∀ x ∈ first :: rest, InTheWay source step x b := fun x hx =>
      (h x b).mp ((Bool.and_eq_true _ _).mp ((hbefore x).mp hx)).2
    obtain ⟨hmem, hall⟩ := foldl_ahead (r := fun x y => t.relates x y = true)
      (fun hxy hyz => (h _ _).mpr (((h _ _).mp hxy).trans ((h _ _).mp hyz))) t.later
      (fun x y => by by_cases hxy : t.relates x y = true <;> simp [later, hxy]) rest
      fun x hx y hy => ((hway x hx).total (hway y hy)).imp (h x y).mpr (h y x).mpr
    right
    exact ⟨_, rfl, (hbefore _).mp hmem, fun a ha => hall a ((hbefore a).mpr ha)⟩

/-- In a table of what stands in the way, the closest is found. -/
theorem closest?_eq_some_iff (b d : BlockId) :
    t.closest? b = some d ↔ Closest source step d b := by
  have hstrictly : ∀ a, t.strictly a b = true ↔ a ≠ b ∧ InTheWay source step a b := by
    intro a
    rw [strictly, Bool.and_eq_true, bne_iff_ne, h]
  rcases closest?_spec h b with ⟨hnone, hnothing⟩ | ⟨e, hsome, he, hall⟩
  · have hno : ¬ Closest source step d b := by
      intro hd
      exact Bool.false_ne_true ((hnothing d).symm.trans ((hstrictly d).mpr ⟨hd.1, hd.2.1⟩))
    simp [hnone, hno]
  · obtain ⟨hne, hway⟩ := (hstrictly e).mp he
    have hclosest : Closest source step e b :=
      ⟨hne, hway, fun a ha hab => (h a e).mp (hall a ((hstrictly a).mpr ⟨ha, hab⟩))⟩
    rw [hsome, Option.some.injEq]
    constructor
    · rintro rfl
      exact hclosest
    · exact hclosest.unique

end Closest

end DominanceTable

namespace FlowGraph

variable {g : FlowGraph} {a b : BlockId}

theorem Dominates.mem_blocks (h : g.Dominates a b) : a ∈ g.blocks := by
  obtain ⟨visited, hw⟩ := h.1
  exact hw.mem_blocks a (h.2 visited hw)

theorem PostDominates.mem_blocks (h : g.PostDominates a b) : a ∈ g.blocks := by
  obtain ⟨e, he, visited, hw⟩ := h.1
  exact hw.mem_blocks a (h.2 e he visited hw)

/-- A block has no other dominators only if it is the entry or cannot be entered. -/
theorem forall_dominates_iff (hentry : g.entry ∈ g.blocks) :
    (∀ a, g.Dominates a b → a = b) ↔ b = g.entry ∨ ¬ g.Entered b := by
  constructor
  · intro h
    by_cases hentered : g.Entered b
    · exact .inl (h g.entry ⟨hentered, fun _ hw => hw.source_mem⟩).symm
    · exact .inr hentered
  · rintro (rfl | hunreached) a h
    · exact List.mem_singleton.mp (h.2 _ (.stay hentry))
    · exact absurd h.1 hunreached

end FlowGraph

namespace Dominance

/-- On some blocks a relation tells what stands in the way, and a look-up what is the closest. -/
structure Answers (source : BlockId → Prop) (step : BlockId → BlockId → Prop)
    (blocks : List BlockId) (relation : BlockId → BlockId → Bool)
    (link : BlockId → Option BlockId) : Prop where
  inside : ∀ {a b}, InTheWay source step a b → a ∈ blocks
  relation_iff : ∀ b ∈ blocks, ∀ a, relation a b = true ↔ InTheWay source step a b
  link_iff : ∀ b ∈ blocks, ∀ d, link b = some d ↔ Closest source step d b

namespace Answers

variable {source : BlockId → Prop} {step : BlockId → BlockId → Prop} {blocks : List BlockId}
  {relation : BlockId → BlockId → Bool} {link : BlockId → Option BlockId}
  (h : Answers source step blocks relation link) {b : BlockId} (hb : b ∈ blocks)

include h hb

/-- The look-up gives the one block that all others of its kind are related to. -/
theorem link_eq_some_iff (d : BlockId) :
    link b = some d ↔
      d ≠ b ∧ relation d b = true ∧ ∀ a, a ≠ b → relation a b = true → relation a d = true := by
  rw [h.link_iff b hb, Closest]
  simp only [h.relation_iff b hb]
  refine and_congr_right fun _ => and_congr_right fun hd => ?_
  simp only [h.relation_iff d (h.inside hd)]

/-- The look-up fails only where no other block is of the kind. -/
theorem link_eq_none_iff : link b = none ↔ ∀ a, relation a b = true → a = b := by
  simp only [h.relation_iff b hb]
  constructor
  · intro hnone a ha
    refine Classical.byContradiction fun hne => ?_
    obtain ⟨d, hd⟩ := ha.exists_closest hne
    rw [(h.link_iff b hb d).mpr hd] at hnone
    cases hnone
  · intro hnothing
    cases hfound : link b with
    | none => rfl
    | some d =>
      have hd := (h.link_iff b hb d).mp hfound
      exact absurd (hnothing d hd.2.1) hd.1

/-- The look-up, repeated, gives all blocks of the kind. -/
theorem relation_iff_links (hreached : ∃ passed, Route source step passed b) (a : BlockId) :
    relation a b = true ↔ Relation.ReflTransGen (fun x y => link x = some y) b a := by
  rw [h.relation_iff b hb, inTheWay_iff_links hreached]
  constructor
  · intro hlinks
    refine Relation.ReflTransGen.mono (fun x y hlink => (h.link_iff x ?_ y).mpr hlink) _ _ hlinks
    exact h.inside ⟨hlink.2.1.1, fun _ hroute => hroute.goal_mem⟩
  · intro hlinks
    -- the links stay among the blocks, where they are the closest
    have hboth : a ∈ blocks ∧
        Relation.ReflTransGen (fun x y => Closest source step y x) b a := by
      induction hlinks with
      | refl => exact ⟨hb, .refl⟩
      | @tail x y _ hlink ih =>
        have hclosest := (h.link_iff x ih.1 y).mp hlink
        exact ⟨h.inside hclosest.2.1, ih.2.tail hclosest⟩
    exact hboth.2

end Answers

section Listed

variable {p : Program} (hp : p.Tidy) (hfit : p.procedures.size ≤ UInt32.size)

include hp hfit

/-- A block that no procedure lists has no procedure to answer for it. -/
private theorem at?_of_not_listed {b : BlockId} (hb : ¬ ∃ f ∈ p.procedures, b ∈ f.blocks) :
    (ofProgram p).at? b = none := by
  refine Option.eq_none_iff_forall_ne_some.mpr fun answer hat => hb ?_
  obtain ⟨g, hshare, _⟩ := (at?_eq_some_iff p b answer).mp hat
  obtain ⟨f, hf, hmem, _⟩ := (share_iff hp hfit g b b).mp hshare
  exact ⟨f, hf, hmem⟩

variable {f : Procedure} (hf : f ∈ p.procedures)

include hf

/-- The procedure that lists a block answers for it. -/
private theorem at?_of_mem {b : BlockId} (hb : b ∈ f.blocks) :
    (ofProgram p).at? b = some (p.flowOf f).dominance :=
  (at?_eq_some_iff p b _).mpr ⟨_, (share_iff hp hfit _ b b).mpr ⟨f, hf, hb, hb, rfl⟩, rfl⟩

/-- The flow graph that a listed block shares with any block is that of its procedure. -/
private theorem share_iff_of_mem {b : BlockId} (hb : b ∈ f.blocks) (g : FlowGraph) (a : BlockId) :
    Share p g a b ↔ p.flowOf f = g ∧ a ∈ f.blocks := by
  rw [share_iff hp hfit]
  constructor
  · rintro ⟨f', hf', ha, hb', rfl⟩
    obtain rfl := hp.eq_of_mem_blocks hfit hf hf' hb hb'
    exact ⟨rfl, ha⟩
  · rintro ⟨rfl, ha⟩
    exact ⟨f, hf, ha, hb, rfl⟩

/-- On the blocks of a procedure, dominance is what stands in the way from its entry. -/
theorem answers_forward : Answers (p.flowOf f).IsStart (p.flowOf f).Leads f.blocks
    (ofProgram p).dominates (ofProgram p).immediateDominator? where
  inside h := (FlowGraph.dominates_iff_inTheWay.mpr h).mem_blocks
  relation_iff b hb a := by
    simp only [dominates_iff, share_iff_of_mem hp hfit hf hb, and_assoc, exists_eq_left']
    rw [FlowGraph.dominates_iff_inTheWay]
    exact and_iff_right_of_imp fun h => (FlowGraph.dominates_iff_inTheWay.mpr h).mem_blocks
  link_iff b hb d := by
    have hlookup : (ofProgram p).immediateDominator? b =
        (p.flowOf f).dominance.forward.closest? b := by
      rw [immediateDominator?, at?_of_mem hp hfit hf hb]
      rfl
    rw [hlookup]
    exact DominanceTable.closest?_eq_some_iff (fun a c =>
      ((p.flowOf f).forward_relates_iff a c).trans FlowGraph.dominates_iff_inTheWay) b d

/-- On the blocks of a procedure, post-dominance is what stands in the way from its exits. -/
theorem answers_backward : Answers (p.flowOf f).IsEnd (fun a b => (p.flowOf f).Leads b a) f.blocks
    (ofProgram p).postDominates (ofProgram p).immediatePostDominator? where
  inside h := (FlowGraph.postDominates_iff_inTheWay.mpr h).mem_blocks
  relation_iff b hb a := by
    simp only [postDominates_iff, share_iff_of_mem hp hfit hf hb, and_assoc, exists_eq_left']
    rw [FlowGraph.postDominates_iff_inTheWay]
    exact and_iff_right_of_imp fun h => (FlowGraph.postDominates_iff_inTheWay.mpr h).mem_blocks
  link_iff b hb d := by
    have hlookup : (ofProgram p).immediatePostDominator? b =
        (p.flowOf f).dominance.backward.closest? b := by
      rw [immediatePostDominator?, at?_of_mem hp hfit hf hb]
      rfl
    rw [hlookup]
    exact DominanceTable.closest?_eq_some_iff (fun a c =>
      ((p.flowOf f).backward_relates_iff a c).trans FlowGraph.postDominates_iff_inTheWay) b d

/-- A listed block has no immediate dominator only if it is the entry or no path leads to it. -/
theorem immediateDominator?_eq_none_iff {b : BlockId} (hb : b ∈ f.blocks) :
    (ofProgram p).immediateDominator? b = none ↔
      b = f.entry ∨ ¬ ∃ visited, p.Path f f.entry visited b := by
  have hforward := answers_forward hp hfit hf
  obtain ⟨i, hi⟩ := Array.mem_iff_getElem?.mp hf
  have hentry : f.entry ∈ f.blocks := (hp i f hi).entry_mem (List.ne_nil_of_mem hb)
  have hothers : (∀ a, (p.flowOf f).Dominates a b → a = b) ↔
      b = f.entry ∨ ¬ (p.flowOf f).Entered b := FlowGraph.forall_dominates_iff hentry
  rw [hforward.link_eq_none_iff hb, ← p.entered_flowOf_iff f b, ← hothers]
  simp only [hforward.relation_iff b hb, FlowGraph.dominates_iff_inTheWay]

end Listed

/-- In a built program, as long as there is an identifier for each block and procedure, an immediate
dominator is the one dominator of a block, the block itself apart, that all others dominate, and
every block has one but entries and blocks to which no path leads; an immediate post-dominator is
the one post-dominator of this kind, and only a block without other post-dominators has none. From
a block to which some path leads, immediate dominators lead to all its dominators and to nothing
else. -/
theorem immediate_iff_closest {p : Program} (hbuilt : p.Built) (hfit : p.Fits) (b : BlockId) :
    (∀ d, (ofProgram p).immediateDominator? b = some d ↔
      d ≠ b ∧ (ofProgram p).dominates d b = true ∧
        ∀ a, a ≠ b → (ofProgram p).dominates a b = true → (ofProgram p).dominates a d = true) ∧
    ((ofProgram p).immediateDominator? b = none ↔ ∀ f ∈ p.procedures, b ∈ f.blocks →
      b = f.entry ∨ ¬ ∃ visited, p.Path f f.entry visited b) ∧
    (∀ d, (ofProgram p).immediatePostDominator? b = some d ↔
      d ≠ b ∧ (ofProgram p).postDominates d b = true ∧
        ∀ a, a ≠ b → (ofProgram p).postDominates a b = true →
          (ofProgram p).postDominates a d = true) ∧
    ((ofProgram p).immediatePostDominator? b = none ↔
      ∀ a, (ofProgram p).postDominates a b = true → a = b) ∧
    ∀ f ∈ p.procedures, b ∈ f.blocks → (∃ visited, p.Path f f.entry visited b) → ∀ a,
      ((ofProgram p).dominates a b = true ↔ Relation.ReflTransGen
        (fun x y => (ofProgram p).immediateDominator? x = some y) b a) := by
  obtain ⟨name, calls, rfl⟩ := hbuilt
  have hp := Build.tidy_grow hfit.1
  by_cases hlisted : ∃ f ∈ (Build.grow name calls).procedures, b ∈ f.blocks
  · obtain ⟨f, hf, hb⟩ := hlisted
    have hforward := answers_forward hp hfit.2 hf
    have hbackward := answers_backward hp hfit.2 hf
    have honly : ∀ f' ∈ (Build.grow name calls).procedures, b ∈ f'.blocks → f' = f :=
      fun f' hf' hb' => hp.eq_of_mem_blocks hfit.2 hf' hf hb' hb
    refine ⟨hforward.link_eq_some_iff hb, ?_, hbackward.link_eq_some_iff hb,
      hbackward.link_eq_none_iff hb, ?_⟩
    · rw [immediateDominator?_eq_none_iff hp hfit.2 hf hb]
      constructor
      · intro h f' hf' hb'
        rw [honly f' hf' hb']
        exact h
      · intro h
        exact h f hf hb
    · intro f' hf' hb' hpath
      obtain rfl := honly f' hf' hb'
      refine hforward.relation_iff_links hb ?_
      have hentry : ((Build.grow name calls).flowOf f').Dominates f'.entry b :=
        ⟨(Program.entered_flowOf_iff _ f' b).mpr hpath, fun _ hw => hw.source_mem⟩
      exact (FlowGraph.dominates_iff_inTheWay.mp hentry).1
  · have hat := at?_of_not_listed hp hfit.2 hlisted
    have hunlisted : ∀ f ∈ (Build.grow name calls).procedures, b ∉ f.blocks :=
      fun f hf hb => hlisted ⟨f, hf, hb⟩
    have hvacuous : ∀ f ∈ (Build.grow name calls).procedures, b ∈ f.blocks →
        b = f.entry ∨ ¬ ∃ visited, (Build.grow name calls).Path f f.entry visited b :=
      fun f hf hb => absurd hb (hunlisted f hf)
    refine ⟨?_, ?_, ?_, ?_, fun f hf hb => absurd hb (hunlisted f hf)⟩
    · simp [immediateDominator?, dominates, hat]
    · exact iff_of_true (by simp [immediateDominator?, hat]) hvacuous
    · simp [immediatePostDominator?, postDominates, hat]
    · simp [immediatePostDominator?, postDominates, hat]

/-- Behind the loop, the entry is the closest dominator, and the links to immediate dominators lead
to it; the last block is the closest post-dominator in the loop and has no other one itself; no
path leads to the block without an immediate dominator. -/
theorem crossroads_immediate :
    crossroads.Built ∧ crossroads.Fits ∧
    (∀ a, a ≠ ⟨3⟩ → (ofProgram crossroads).dominates a ⟨3⟩ = true →
      (ofProgram crossroads).dominates a ⟨0⟩ = true) ∧
    Relation.ReflTransGen (fun x y => (ofProgram crossroads).immediateDominator? x = some y)
      ⟨3⟩ ⟨0⟩ ∧
    (∀ a, a ≠ ⟨1⟩ → (ofProgram crossroads).postDominates a ⟨1⟩ = true →
      (ofProgram crossroads).postDominates a ⟨3⟩ = true) ∧
    (∀ a, (ofProgram crossroads).postDominates a ⟨3⟩ = true → a = ⟨3⟩) ∧
    ∀ f ∈ crossroads.procedures, ⟨4⟩ ∈ f.blocks →
      ⟨4⟩ = f.entry ∨ ¬ ∃ visited, crossroads.Path f f.entry visited ⟨4⟩ := by
  have hbuilt : crossroads.Built := ⟨_, _, rfl⟩
  have hfit : crossroads.Fits := by decide +kernel
  obtain ⟨hidom, _, _, hnone, hlinks⟩ := immediate_iff_closest hbuilt hfit ⟨3⟩
  have hclosest := (hidom ⟨0⟩).mp (by decide +kernel)
  have hpost := ((immediate_iff_closest hbuilt hfit ⟨1⟩).2.2.1 ⟨3⟩).mp (by decide +kernel)
  obtain ⟨f, hf, hb, hentered⟩ : ∃ f ∈ crossroads.procedures, ⟨3⟩ ∈ f.blocks ∧
    (crossroads.flowOf f).Entered ⟨3⟩ := by decide +kernel
  have hpath := (crossroads.entered_flowOf_iff f ⟨3⟩).mp hentered
  refine ⟨hbuilt, hfit, hclosest.2.2, ?_, hpost.2.2, hnone.mp (by decide +kernel), ?_⟩
  · exact (hlinks f hf hb hpath ⟨0⟩).mp hclosest.2.1
  · exact (immediate_iff_closest hbuilt hfit ⟨4⟩).2.1.mp (by decide +kernel)

end Dominance

end GuardElision
