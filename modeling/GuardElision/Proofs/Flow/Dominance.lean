import GuardElision.Flow.Dominance
import GuardElision.Proofs.Flow.Route

/-!
# How dominance and post-dominance compose

Each of the two relations is transitive. A step of one followed by a step of the other
composes to one of them only when the block at the end of the chain lies on some run from
the entry to an exit: cutting the walks at the block in the middle would otherwise leave
nothing to join. `OnEveryRun.trans_or` says exactly what is left in general.

The dominance of a whole program answers from the flow graph of the procedure that its block
look-up finds, which is what `dominates_iff` and `postDominates_iff` say.
-/

namespace GuardElision

namespace FlowGraph

/-- Some run from the entry to an exit passes a block. -/
def OnSomeRun (g : FlowGraph) (b : BlockId) : Prop := g.Entered b ∧ g.Ends b

/-- One block dominates or post-dominates the other. -/
def OnEveryRun (g : FlowGraph) (a b : BlockId) : Prop := g.Dominates a b ∨ g.PostDominates a b

instance (g : FlowGraph) (b : BlockId) : Decidable (g.OnSomeRun b) :=
  inferInstanceAs (Decidable (_ ∧ _))

variable {g : FlowGraph} {a b c : BlockId}

/-- Only blocks of the procedure are on record. -/
theorem OnEveryRun.mem_blocks (h : g.OnEveryRun a b) : b ∈ g.blocks := by
  rcases h with ⟨⟨visited, hw⟩, _⟩ | ⟨⟨_, _, visited, hw⟩, _⟩
  · exact hw.mem_blocks b hw.target_mem
  · exact hw.mem_blocks b hw.source_mem

/-- What dominates a block can be entered itself. -/
theorem Dominates.entered (h : g.Dominates a b) : g.Entered a := by
  obtain ⟨⟨visited, hw⟩, hall⟩ := h
  obtain ⟨before, _, hbefore, _⟩ := hw.split (hall visited hw)
  exact ⟨before, hbefore⟩

/-- What post-dominates a block can be left for an exit itself. -/
theorem PostDominates.ends (h : g.PostDominates a b) : g.Ends a := by
  obtain ⟨⟨e, he, visited, hw⟩, hall⟩ := h
  obtain ⟨_, after, _, hafter, _⟩ := hw.split (hall e he visited hw)
  exact ⟨e, he, after, hafter⟩

/-- Dominance is transitive. -/
theorem Dominates.trans (hc : g.Dominates c b) (hb : g.Dominates b a) : g.Dominates c a := by
  refine ⟨hb.1, fun visited hw => ?_⟩
  obtain ⟨before, _, hbefore, _, hmem, _⟩ := hw.split (hb.2 visited hw)
  exact hmem c (hc.2 before hbefore)

/-- Two different blocks do not dominate each other. -/
theorem Dominates.antisymm (hab : g.Dominates a b) (hba : g.Dominates b a) : a = b :=
  (dominates_iff_inTheWay.mp hab).antisymm (dominates_iff_inTheWay.mp hba)

/-- Post-dominance is transitive. -/
theorem PostDominates.trans (hc : g.PostDominates c b) (hb : g.PostDominates b a) :
    g.PostDominates c a := by
  refine ⟨hb.1, fun e he visited hw => ?_⟩
  obtain ⟨_, after, _, hafter, _, hmem⟩ := hw.split (hb.2 e he visited hw)
  exact hmem c (hc.2 e he after hafter)

/-- A walk into `a` and a walk from `a` to an exit that both miss `c` join, at any block the
second one visits, to a walk from the entry that misses `c`. -/
private theorem Walk.join_before {e : BlockId} {earlier later : List BlockId}
    (h₁ : g.Walk g.entry earlier a) (h₂ : g.Walk a later e) (hb : b ∈ later)
    (hc : c ∉ earlier ∧ c ∉ later) : ∃ all, g.Walk g.entry all b ∧ c ∉ all := by
  obtain ⟨before, _, hbefore, _, hmem, _⟩ := h₂.split hb
  obtain ⟨all, hall, hfrom⟩ := h₁.append hbefore
  exact ⟨all, hall, fun h => (hfrom c h).elim hc.1 fun h => hc.2 (hmem c h)⟩

/-- The same two walks join, at any block the first one visits, to a walk to the exit that
misses `c`. -/
private theorem Walk.join_after {e : BlockId} {earlier later : List BlockId}
    (h₁ : g.Walk g.entry earlier a) (h₂ : g.Walk a later e) (hb : b ∈ earlier)
    (hc : c ∉ earlier ∧ c ∉ later) : ∃ all, g.Walk b all e ∧ c ∉ all := by
  obtain ⟨_, after, _, hafter, _, hmem⟩ := h₁.split hb
  obtain ⟨all, hall, hfrom⟩ := hafter.append h₂
  exact ⟨all, hall, fun h => (hfrom c h).elim (fun h => hc.1 (hmem c h)) hc.2⟩

/-- A block that can be entered and left for an exit is on every run with `c` unless some walk
into it and some walk out of it both miss `c`. -/
private theorem onEveryRun_or_missed (ha : g.OnSomeRun a) (c : BlockId) :
    g.OnEveryRun c a ∨ ∃ earlier, ∃ e ∈ g.exits, ∃ later,
      g.Walk g.entry earlier a ∧ g.Walk a later e ∧ c ∉ earlier ∧ c ∉ later := by
  by_cases hd : ∀ visited, g.Walk g.entry visited a → c ∈ visited
  · exact .inl (.inl ⟨ha.1, hd⟩)
  by_cases hp : ∀ e ∈ g.exits, ∀ visited, g.Walk a visited e → c ∈ visited
  · exact .inl (.inr ⟨ha.2, hp⟩)
  simp only [Classical.not_forall] at hd hp
  obtain ⟨earlier, hearlier, hmiss⟩ := hd
  obtain ⟨e, he, later, hlater, hmiss'⟩ := hp
  exact .inr ⟨earlier, e, he, later, hearlier, hlater, hmiss, hmiss'⟩

/-- Between blocks of which the last lies on some run, the two relations compose in any order. -/
theorem OnEveryRun.trans (hc : g.OnEveryRun c b) (hb : g.OnEveryRun b a) (ha : g.OnSomeRun a) :
    g.OnEveryRun c a := by
  rcases onEveryRun_or_missed ha c with h | ⟨earlier, e, he, later, h₁, h₂, hmiss⟩
  · exact h
  rcases hb with hb | hb
  · have hvisit := hb.2 earlier h₁
    rcases hc with hc | hc
    · exact .inl (hc.trans hb)
    · obtain ⟨all, hall, hnot⟩ := h₁.join_after h₂ hvisit hmiss
      exact absurd (hc.2 e he all hall) hnot
  · have hvisit := hb.2 e he later h₂
    rcases hc with hc | hc
    · obtain ⟨all, hall, hnot⟩ := h₁.join_before h₂ hvisit hmiss
      exact absurd (hc.2 all hall) hnot
    · exact .inr (hc.trans hb)

/-- On every flow graph the two relations compose, unless the block in the middle lies on some
run and the last block on none. -/
theorem OnEveryRun.trans_or (hc : g.OnEveryRun c b) (hb : g.OnEveryRun b a) :
    g.OnEveryRun c a ∨ (g.OnSomeRun b ∧ ¬ g.OnSomeRun a) := by
  by_cases ha : g.OnSomeRun a
  · exact .inl (hc.trans hb ha)
  rcases hc with hc | hc <;> rcases hb with hb | hb
  · exact .inl (.inl (hc.trans hb))
  · exact .inr ⟨⟨hc.1, hb.ends⟩, ha⟩
  · exact .inr ⟨⟨hb.entered, hc.1⟩, ha⟩
  · exact .inl (.inr (hc.trans hb))

end FlowGraph

/-- A table relates `a` to `b` when `a` has a row and `b` stands in it. -/
theorem DominanceTable.relates_tabulate_iff (blocks : List BlockId)
    (row : BlockId → List BlockId) (a b : BlockId) :
    (tabulate blocks row).relates a b = true ↔ a ∈ blocks ∧ b ∈ row a := by
  rw [relates, tabulate, lookup_map]
  by_cases ha : a ∈ blocks <;> simp [ha]

namespace FlowGraph

/-- The forward table of a procedure holds its dominance. -/
theorem forward_relates_iff (g : FlowGraph) (a b : BlockId) :
    g.dominance.forward.relates a b = true ↔ g.Dominates a b := by
  rw [dominance, DominanceTable.relates_tabulate_iff, mem_dominatedBy_iff]
  refine and_iff_right_of_imp fun h => ?_
  obtain ⟨visited, hw⟩ := h.1
  exact hw.mem_blocks a (h.2 visited hw)

/-- The backward table of a procedure holds its post-dominance. -/
theorem backward_relates_iff (g : FlowGraph) (a b : BlockId) :
    g.dominance.backward.relates a b = true ↔ g.PostDominates a b := by
  rw [dominance, DominanceTable.relates_tabulate_iff, mem_postDominatedBy_iff]
  refine and_iff_right_of_imp fun h => ?_
  obtain ⟨e, he, visited, hw⟩ := h.1
  exact hw.mem_blocks a (h.2 e he visited hw)

end FlowGraph

namespace Dominance

/-- Whoever owns a block has a flow graph, and its relations are on record. -/
private def Tabulated (p : Program) (d : Dominance) : Prop :=
  ∀ b id, d.owners.lookup b = some id →
    ∃ g, FlowGraph.of? p id = some g ∧ d.procedures.lookup id = some g.dominance

private theorem lookup_filter_ne {β : Type} (entries : List (ProcedureId × β))
    {id other : ProcedureId} (h : id ≠ other) :
    (entries.filter fun entry => entry.1 != other).lookup id = entries.lookup id := by
  induction entries with
  | nil => rfl
  | cons e rest ih =>
    obtain ⟨key, value⟩ := e
    by_cases hkey : key = other
    · have hne : (id == key) = false := by simpa [hkey] using h
      rw [List.filter_cons_of_neg (by simp [hkey]), ih, List.lookup_cons, hne]
    · rw [List.filter_cons_of_pos (by simpa using hkey), List.lookup_cons, List.lookup_cons, ih]

private theorem Tabulated.add {p : Program} {d : Dominance} (h : Tabulated p d) (f : Procedure) :
    Tabulated p (d.add p f) := by
  rw [Dominance.add.eq_def]
  cases hg : FlowGraph.of? p f.id with
  | none => exact h
  | some g =>
    intro b id hb
    simp only [lookup_map_append] at hb
    by_cases hid : id = f.id
    · subst hid
      exact ⟨g, hg, by simp⟩
    · split at hb
      · exact absurd (Option.some.inj hb).symm hid
      · obtain ⟨g', hg', hlookup⟩ := h b id hb
        have hne : (id == f.id) = false := by simpa using hid
        exact ⟨g', hg', by simp only [List.lookup_cons, hne, lookup_filter_ne _ hid, hlookup]⟩

private theorem tabulated_ofProgram (p : Program) : Tabulated p (ofProgram p) := by
  have hfold : ∀ (fs : List Procedure) (d : Dominance), Tabulated p d →
      Tabulated p (fs.foldl (add p) d) := by
    intro fs
    induction fs with
    | nil => exact fun _ h => h
    | cons f fs ih => exact fun d h => ih _ (h.add f)
  exact hfold _ _ fun b id h => by simp at h

/-- Two blocks belong to one procedure, whose flow graph is `g`. -/
def Share (p : Program) (g : FlowGraph) (a b : BlockId) : Prop :=
  ∃ id, (ofProgram p).owners.lookup a = some id ∧ (ofProgram p).owners.lookup b = some id ∧
    FlowGraph.of? p id = some g

theorem Share.trans {p : Program} {g g' : FlowGraph} {a b c : BlockId} (hab : Share p g a b)
    (hbc : Share p g' b c) : g' = g ∧ Share p g a c := by
  obtain ⟨id, ha, hb, hg⟩ := hab
  obtain ⟨id', hb', hc, hg'⟩ := hbc
  obtain rfl := Option.some.inj (hb.symm.trans hb')
  exact ⟨Option.some.inj (hg'.symm.trans hg), id, ha, hc, hg⟩

/-- The procedure that answers for two blocks is the one they share. -/
private theorem at?_together_iff (p : Program) (a b : BlockId) (f : ProcedureDominance) :
    (ofProgram p).at? b = some f ∧ (ofProgram p).together a b = true ↔
      ∃ g, Share p g a b ∧ g.dominance = f := by
  simp only [at?, together, Share, Option.bind_eq_bind, Option.bind_eq_some_iff]
  constructor
  · rintro ⟨⟨id, hb, hf⟩, htogether⟩
    obtain ⟨g, hg, hlookup⟩ := tabulated_ofProgram p b id hb
    cases ha : (ofProgram p).owners.lookup a with
    | none => simp [ha] at htogether
    | some id' =>
      have hid : id' = id := by simpa [ha, hb] using htogether
      exact ⟨g, ⟨id, by rw [hid], hb, hg⟩, Option.some.inj (hlookup.symm.trans hf)⟩
  · rintro ⟨g, ⟨id, ha, hb, hg⟩, rfl⟩
    obtain ⟨g', hg', hlookup⟩ := tabulated_ofProgram p b id hb
    obtain rfl := Option.some.inj (hg'.symm.trans hg)
    exact ⟨⟨id, hb, hlookup⟩, by simp [ha, hb]⟩

/-- The procedure that answers for a block is the one it belongs to. -/
theorem at?_eq_some_iff (p : Program) (b : BlockId) (f : ProcedureDominance) :
    (ofProgram p).at? b = some f ↔ ∃ g, Share p g b b ∧ g.dominance = f := by
  rw [← at?_together_iff, iff_self_and]
  intro hat
  cases hb : (ofProgram p).owners.lookup b with
  | none => simp [at?, hb] at hat
  | some id => simp [together, hb]

/-- What the procedure at a block says about two blocks together is what the procedure says that
they share. -/
private theorem exists_at?_iff (p : Program) (table : ProcedureDominance → DominanceTable)
    (a b : BlockId) :
    (∃ f, (ofProgram p).at? b = some f ∧ (ofProgram p).together a b = true ∧
      (table f).relates a b = true) ↔
      ∃ g, Share p g a b ∧ (table g.dominance).relates a b = true := by
  constructor
  · rintro ⟨f, hat, htogether, hrel⟩
    obtain ⟨g, hshare, rfl⟩ := (at?_together_iff p a b f).mp ⟨hat, htogether⟩
    exact ⟨g, hshare, hrel⟩
  · rintro ⟨g, hshare, hrel⟩
    obtain ⟨hat, htogether⟩ := (at?_together_iff p a b g.dominance).mpr ⟨g, hshare, rfl⟩
    exact ⟨g.dominance, hat, htogether, hrel⟩

/-- A program's dominance is that of the procedure its two blocks share. -/
theorem dominates_iff (p : Program) (a b : BlockId) :
    (ofProgram p).dominates a b = true ↔ ∃ g, Share p g a b ∧ g.Dominates a b := by
  have hanswer : (ofProgram p).dominates a b = true ↔ ∃ f, (ofProgram p).at? b = some f ∧
      (ofProgram p).together a b = true ∧ f.forward.relates a b = true := by
    cases h : (ofProgram p).at? b <;> simp [dominates, h]
  rw [hanswer, exists_at?_iff p ProcedureDominance.forward]
  exact exists_congr fun g => and_congr_right fun _ => g.forward_relates_iff a b

/-- A program's post-dominance is that of the procedure its two blocks share. -/
theorem postDominates_iff (p : Program) (a b : BlockId) :
    (ofProgram p).postDominates a b = true ↔ ∃ g, Share p g a b ∧ g.PostDominates a b := by
  have hanswer : (ofProgram p).postDominates a b = true ↔ ∃ f, (ofProgram p).at? b = some f ∧
      (ofProgram p).together a b = true ∧ f.backward.relates a b = true := by
    cases h : (ofProgram p).at? b <;> simp [postDominates, h]
  rw [hanswer, exists_at?_iff p ProcedureDominance.backward]
  exact exists_congr fun g => and_congr_right fun _ => g.backward_relates_iff a b

/-- Two different blocks of a program do not dominate each other. -/
theorem dominates_antisymm {p : Program} {a b : BlockId}
    (hab : (ofProgram p).dominates a b = true) (hba : (ofProgram p).dominates b a = true) :
    a = b := by
  obtain ⟨g, hshare, hab⟩ := (dominates_iff p a b).mp hab
  obtain ⟨g', hshare', hba⟩ := (dominates_iff p b a).mp hba
  obtain ⟨rfl, _⟩ := hshare.trans hshare'
  exact hab.antisymm hba

end Dominance

end GuardElision
