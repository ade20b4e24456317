import GuardElision.Proofs.Program.Builder
import Mathlib.Data.List.Nodup
import Mathlib.Logic.Relation

/-!
# Built programs are regular

Calls of the builder that do not fail come down to few changes of a program: an item is appended
to one of its arenas, an appended block is listed in its procedure, a jump is recorded. Each of
these changes keeps a program regular (`Change.regular`): identifiers are positions, a procedure
lists exactly the blocks that name it, in the order in which they were appended, the first of them
is its entry, successors are not repeated, and both ways of a branch are jumps of its block. So
whatever calls build a program, it is regular, as long as there is an identifier for every item.
-/

namespace GuardElision

/-- Items of an arena carry their positions. -/
def Dense {α : Type} (index : α → UInt32) (items : Array α) : Prop :=
  ∀ i x, items[i]? = some x → (index x).toNat = i

namespace Dense

variable {α : Type} {index : α → UInt32} {items : Array α}

theorem push (h : Dense index items) {x : α} (hx : index x = UInt32.ofNat items.size)
    (hfit : items.size < UInt32.size) : Dense index (items.push x) := by
  intro i y hy
  rw [Array.getElem?_push] at hy
  split at hy
  · next hi =>
    obtain rfl := Option.some.inj hy
    rw [hx, UInt32.toNat_ofNat_of_lt' hfit, hi]
  · exact h i y hy

theorem set (h : Dense index items) {i : Nat} {x y : α} (hx : items[i]? = some x)
    (hy : index y = index x) : Dense index (items.setIfInBounds i y) := by
  intro j z hz
  rw [Array.getElem?_setIfInBounds] at hz
  split at hz
  · next hij =>
    split at hz
    · obtain rfl := Option.some.inj hz
      rw [hy, h i x hx, hij]
    · cases hz
  · exact h j z hz

theorem nodup (h : Dense index items) : (items.toList.map index).Nodup := by
  rw [List.Nodup, List.pairwise_map, List.pairwise_iff_getElem]
  intro i j hi hj hij heq
  have hindex : ∀ k (hk : k < items.toList.length), (index items.toList[k]).toNat = k :=
    fun k hk => h k _ (Array.getElem?_toList ▸ List.getElem?_eq_getElem hk)
  have hi := hindex i hi
  rw [heq, hindex j hj] at hi
  exact Nat.ne_of_lt hij hi.symm

/-- Items with one index are one item. -/
theorem eq_of_index_eq (h : Dense index items) {x y : α} (hx : x ∈ items) (hy : y ∈ items)
    (hxy : index x = index y) : x = y := by
  obtain ⟨i, hi⟩ := Array.mem_iff_getElem?.mp hx
  obtain ⟨j, hj⟩ := Array.mem_iff_getElem?.mp hy
  have hij : i = j := by rw [← h i x hi, ← h j y hj, hxy]
  exact Option.some.inj (hi.symm.trans (hij ▸ hj))

end Dense

namespace Program

/-- The blocks that name a procedure as theirs, in the order of their positions. -/
def blocksOf (p : Program) (owner : ProcedureId) : List BlockId :=
  (p.blocks.toList.filter fun b => b.procedure = owner).map Block.id

/-- A node is no two-way branch, or it tests one operand and continues in two blocks that its own
block jumps to. -/
def BranchFits (p : Program) (n : Node) : Prop :=
  n.isCondBranch = true → ∃ condition left right b, n.operands = [condition] ∧
    n.successors = [left, right] ∧ p.block? n.block = some b ∧
    left ∈ b.successors ∧ right ∈ b.successors

/-- Identifiers are positions, blocks are listed by the procedures that they name, and branches
agree with the jumps of their blocks. -/
structure Regular (p : Program) : Prop where
  node_id : Dense (fun n => n.id.index) p.nodes
  block_id : Dense (fun b => b.id.index) p.blocks
  procedure_id : Dense (fun f => f.id.index) p.procedures
  owned : ∀ b ∈ p.blocks, b.procedure.index.toNat < p.procedures.size
  listed : ∀ f ∈ p.procedures, f.blocks = p.blocksOf f.id
  entry : ∀ f ∈ p.procedures, ∀ b, f.blocks.head? = some b → f.entry = b
  successors_nodup : ∀ b ∈ p.blocks, b.successors.Nodup
  branch : ∀ n ∈ p.nodes, p.BranchFits n

/-- There is an identifier for each node, each block and each procedure. -/
def Numbered (p : Program) : Prop := p.nodes.size ≤ UInt32.size ∧ p.Fits

instance (p : Program) : Decidable p.Numbered := inferInstanceAs (Decidable (_ ∧ _))

/-- Without any item a program is regular. -/
theorem regular_empty (name : String) : Regular { name } := by
  constructor <;> simp [Dense]

end Program

namespace Build

section Calls

/-- The second of two steps that do not fail starts where the first one ends. -/
theorem run_bind_ok {α β : Type} {x : Build α} {f : α → Build β} {p q : Program} {b : β}
    (h : (x >>= f).run.run p = (.ok b, q)) :
    ∃ a r, x.run.run p = (.ok a, r) ∧ (f a).run.run r = (.ok b, q) := by
  rw [run_bind] at h
  split at h
  · next a r hr => exact ⟨a, r, hr, h⟩
  · cases h

/-- The step that a call makes. -/
def Call.step : Call → Build Unit
  | .procedure name => do
    let _ ← Build.procedure name
    return ()
  | .block owner label => do
    let _ ← Build.block owner label
    return ()
  | .jump source target => Build.jump source target
  | .external name => do
    let _ ← Build.external name
    return ()
  | .operation place opcode operands name => do
    let _ ← Build.operation place opcode operands name
    return ()
  | .branch place condition left right => do
    let _ ← Build.branch place condition left right
    return ()

/-- Calls one after another, up to the first one that fails. -/
def runCalls : List Call → Build Unit
  | [] => return ()
  | call :: calls => do
    call.step
    runCalls calls

end Calls

/-- What a step of the builder that does not fail can change about a program. -/
inductive Change (p : Program) : Program → Prop where
  | procedure (name : String) : Change p { p with
      procedures := p.procedures.push ⟨⟨UInt32.ofNat p.procedures.size⟩, name, noEntry, []⟩ }
  /-- A block is appended and listed in its procedure. -/
  | block {owner : ProcedureId} {f : Procedure} (label : Option String) :
      p.procedure? owner = some f → Change p { p with
        blocks := p.blocks.push (nextBlock p owner label)
        procedures := p.procedures.setIfInBounds owner.index.toNat
          (enlist f ⟨UInt32.ofNat p.blocks.size⟩) }
  /-- A jump is recorded that was not recorded before. -/
  | jump {source : BlockId} {b : Block} {target : BlockId} : p.block? source = some b →
      target ∉ b.successors → Change p { p with
        blocks := p.blocks.setIfInBounds source.index.toNat
          { b with successors := b.successors ++ [target] } }
  | external (name : String) : Change p { p with externals := p.externals.push name }
  | node (n : Node) : n.id = ⟨UInt32.ofNat p.nodes.size⟩ → p.BranchFits n →
      Change p { p with nodes := p.nodes.push n }

/-- Any number of changes. -/
abbrev Changes : Program → Program → Prop := Relation.ReflTransGen Change

namespace Change

variable {p q : Program}

/-- No change takes an item away, or an identifier of what is there. -/
theorem numbered (h : Change p q) (hfit : q.Numbered) : p.Numbered := by
  obtain ⟨hnodes, hblocks, hprocedures⟩ := hfit
  cases h <;> refine ⟨?_, ?_, ?_⟩ <;> simp only [Array.size_push, Array.size_setIfInBounds] at * <;>
    omega

/-- No change takes a jump away. -/
theorem block?_mono (h : Change p q) {place : BlockId} {b : Block} (hb : p.block? place = some b) :
    ∃ b', q.block? place = some b' ∧ b.successors ⊆ b'.successors := by
  cases h with
  | procedure name => exact ⟨b, hb, List.Subset.refl _⟩
  | external name => exact ⟨b, hb, List.Subset.refl _⟩
  | node n _ _ => exact ⟨b, hb, List.Subset.refl _⟩
  | block label _ =>
    have hlt : place.index.toNat < p.blocks.size := (Array.getElem?_eq_some_iff.mp hb).1
    refine ⟨b, ?_, List.Subset.refl _⟩
    rw [Program.block?, Array.getElem?_push, if_neg (Nat.ne_of_lt hlt)]
    exact hb
  | @jump source c target hsource _ =>
    by_cases heq : source.index.toNat = place.index.toNat
    · have hlt : source.index.toNat < p.blocks.size := (Array.getElem?_eq_some_iff.mp hsource).1
      obtain rfl : c = b := by
        rw [Program.block?, heq] at hsource
        exact Option.some.inj (hsource.symm.trans hb)
      refine ⟨{ c with successors := c.successors ++ [target] }, ?_, List.subset_append_left _ _⟩
      rw [Program.block?, Array.getElem?_setIfInBounds, if_pos heq, if_pos hlt]
    · refine ⟨b, ?_, List.Subset.refl _⟩
      rw [Program.block?, Array.getElem?_setIfInBounds, if_neg heq]
      exact hb

theorem branchFits (h : Change p q) {n : Node} (hn : p.BranchFits n) : q.BranchFits n := by
  intro hbranch
  obtain ⟨condition, left, right, b, hoperands, hsuccessors, hb, hleft, hright⟩ := hn hbranch
  obtain ⟨b', hb', hmono⟩ := h.block?_mono hb
  exact ⟨condition, left, right, b', hoperands, hsuccessors, hb', hmono hleft, hmono hright⟩

end Change

end Build

namespace Program

variable {p : Program}

theorem blocksOf_push {q : Program} {b : Block} (h : q.blocks = p.blocks.push b)
    (owner : ProcedureId) :
    q.blocksOf owner = p.blocksOf owner ++ if b.procedure = owner then [b.id] else [] := by
  by_cases hb : b.procedure = owner <;> simp [blocksOf, h, hb]

/-- New successors of a block leave the blocks of a procedure as they are. -/
theorem blocksOf_withSuccessors {place : BlockId} {b : Block} (hb : p.block? place = some b)
    (successors : List BlockId) (owner : ProcedureId) :
    blocksOf { p with
      blocks := p.blocks.setIfInBounds place.index.toNat { b with successors } } owner =
      p.blocksOf owner := by
  have hsame : (p.blocks.setIfInBounds place.index.toNat { b with successors }).toList.map
      (fun b => (b.id, b.procedure)) = p.blocks.toList.map fun b => (b.id, b.procedure) := by
    refine List.ext_getElem? fun j => ?_
    simp only [List.getElem?_map, Array.getElem?_toList, Array.getElem?_setIfInBounds]
    split
    · next hij =>
      have hlt : place.index.toNat < p.blocks.size := (Array.getElem?_eq_some_iff.mp hb).1
      rw [block?, hij] at hb
      rw [if_pos hlt, hb]
      rfl
    · rfl
  have hpairs : ∀ r : Program, r.blocksOf owner =
      ((r.blocks.toList.map fun b => (b.id, b.procedure)).filter fun e => e.2 = owner).map
        Prod.fst := by
    intro r
    rw [List.filter_map, List.map_map]
    rfl
  rw [hpairs, hsame, ← hpairs p]

/-- A procedure that does not exist has no blocks. -/
theorem Regular.blocksOf_eq_nil (hp : p.Regular) {owner : ProcedureId}
    (h : p.procedures.size ≤ owner.index.toNat) : p.blocksOf owner = [] := by
  rw [blocksOf, List.map_eq_nil_iff, List.filter_eq_nil_iff]
  intro b hb hprocedure
  have hlt := hp.owned b (Array.mem_toList_iff.mp hb)
  rw [of_decide_eq_true hprocedure] at hlt
  omega

/-- A regular program stays regular when a procedure without blocks is appended. -/
theorem Regular.procedure (hp : p.Regular) (hfit : p.procedures.size < UInt32.size)
    (name : String) : Regular { p with
      procedures := p.procedures.push
        ⟨⟨UInt32.ofNat p.procedures.size⟩, name, Build.noEntry, []⟩ } where
  node_id := hp.node_id
  block_id := hp.block_id
  procedure_id := hp.procedure_id.push rfl hfit
  owned b hb := Nat.lt_of_lt_of_le (hp.owned b hb) (by simp)
  listed f hf := by
    rcases Array.mem_push.mp hf with hf | rfl
    · exact hp.listed f hf
    · have hindex : (UInt32.ofNat p.procedures.size).toNat = p.procedures.size :=
        UInt32.toNat_ofNat_of_lt' hfit
      exact (hp.blocksOf_eq_nil (Nat.le_of_eq hindex.symm)).symm
  entry f hf := by
    rcases Array.mem_push.mp hf with hf | rfl
    · exact hp.entry f hf
    · exact nofun
  successors_nodup := hp.successors_nodup
  branch := hp.branch

/-- A regular program stays regular when a jump is recorded that was not recorded before. -/
theorem Regular.jump (hp : p.Regular) {source : BlockId} {b : Block} {target : BlockId}
    (hb : p.block? source = some b) (hnew : target ∉ b.successors) :
    Regular { p with
      blocks := p.blocks.setIfInBounds source.index.toNat
        { b with successors := b.successors ++ [target] } } where
  node_id := hp.node_id
  block_id := hp.block_id.set hb rfl
  procedure_id := hp.procedure_id
  owned c hc := by
    rcases Array.mem_or_eq_of_mem_setIfInBounds hc with hc | rfl
    · exact hp.owned c hc
    · exact hp.owned b (Array.mem_of_getElem? hb)
  listed f hf := by
    rw [blocksOf_withSuccessors hb]
    exact hp.listed f hf
  entry := hp.entry
  successors_nodup c hc := by
    rcases Array.mem_or_eq_of_mem_setIfInBounds hc with hc | rfl
    · exact hp.successors_nodup c hc
    · have hnodup := hp.successors_nodup b (Array.mem_of_getElem? hb)
      exact List.nodup_append.mpr ⟨hnodup, List.nodup_singleton target, fun x hx y hy =>
        List.mem_singleton.mp hy ▸ fun heq => hnew (heq ▸ hx)⟩
  branch n hn := (Build.Change.jump hb hnew).branchFits (hp.branch n hn)

/-- A regular program stays regular when a node is appended that is no branch or agrees with the
jumps of its block. -/
theorem Regular.node (hp : p.Regular) (hfit : p.nodes.size < UInt32.size) {n : Node}
    (hid : n.id = ⟨UInt32.ofNat p.nodes.size⟩) (hn : p.BranchFits n) :
    Regular { p with nodes := p.nodes.push n } where
  node_id := hp.node_id.push (by rw [hid]) hfit
  block_id := hp.block_id
  procedure_id := hp.procedure_id
  owned := hp.owned
  listed := hp.listed
  entry := hp.entry
  successors_nodup := hp.successors_nodup
  branch m hm := by
    rcases Array.mem_push.mp hm with hm | rfl
    · exact hp.branch m hm
    · exact hn

/-- In a regular program a procedure is found at its own identifier. -/
theorem Regular.id_of_procedure? (hp : p.Regular) {owner : ProcedureId} {f : Procedure}
    (hf : p.procedure? owner = some f) : f.id = owner := by
  have hindex := hp.procedure_id _ f hf
  rw [UInt32.toNat_inj] at hindex
  cases hid : f.id
  cases owner
  simpa [hid] using hindex

/-- A regular program stays regular when a block is appended and listed in its procedure. -/
theorem Regular.block (hp : p.Regular) (hfit : p.blocks.size < UInt32.size) {owner : ProcedureId}
    {f : Procedure} (hf : p.procedure? owner = some f) (label : Option String) :
    Regular { p with
      blocks := p.blocks.push (Build.nextBlock p owner label)
      procedures := p.procedures.setIfInBounds owner.index.toNat
        (Build.enlist f ⟨UInt32.ofNat p.blocks.size⟩) } := by
  have hmem : f ∈ p.procedures := Array.mem_of_getElem? hf
  have howner : f.id = owner := hp.id_of_procedure? hf
  have hprocedures : Dense (fun g : Procedure => g.id.index) (p.procedures.setIfInBounds
      owner.index.toNat (Build.enlist f ⟨UInt32.ofNat p.blocks.size⟩)) :=
    hp.procedure_id.set hf rfl
  have hlt : owner.index.toNat < p.procedures.size := (Array.getElem?_eq_some_iff.mp hf).1
  have henlisted : Build.enlist f ⟨UInt32.ofNat p.blocks.size⟩ ∈ p.procedures.setIfInBounds
      owner.index.toNat (Build.enlist f ⟨UInt32.ofNat p.blocks.size⟩) :=
    Array.mem_of_getElem? (by rw [Array.getElem?_setIfInBounds, if_pos rfl, if_pos hlt])
  refine ⟨hp.node_id, hp.block_id.push rfl hfit, hprocedures, fun b hb => ?_, fun g hg => ?_,
    fun g hg => ?_, fun b hb => ?_, fun n hn => ?_⟩
  · rw [Array.size_setIfInBounds]
    rcases Array.mem_push.mp hb with hb | rfl
    · exact hp.owned b hb
    · exact hlt
  · rw [blocksOf_push rfl]
    by_cases hg' : g.id = owner
    · -- identifiers are positions, so this is the procedure that the block was listed in
      obtain rfl := hprocedures.eq_of_index_eq hg henlisted
        (congrArg ProcedureId.index (hg'.trans howner.symm))
      have hlisted := hp.listed f hmem
      simp [Build.enlist, Build.nextBlock, hlisted, howner]
    · have hg := (Array.mem_or_eq_of_mem_setIfInBounds hg).resolve_right
        fun heq => hg' (heq ▸ howner)
      have hother : owner ≠ g.id := fun heq => hg' heq.symm
      simpa [Build.nextBlock, hother] using hp.listed g hg
  · rcases Array.mem_or_eq_of_mem_setIfInBounds hg with hg | rfl
    · exact hp.entry g hg
    · intro b hb
      cases hblocks : f.blocks with
      | nil => simpa [Build.enlist, hblocks] using hb
      | cons first rest =>
        have hentry := hp.entry f hmem first (by rw [hblocks]; rfl)
        simpa [Build.enlist, hblocks, hentry] using hb
  · rcases Array.mem_push.mp hb with hb | rfl
    · exact hp.successors_nodup b hb
    · exact List.nodup_nil
  · exact (Build.Change.block label hf).branchFits (hp.branch n hn)

/-- In a regular program a procedure lists the blocks that name it. -/
theorem Regular.mem_listed_iff (hp : p.Regular) {f : Procedure} (hf : f ∈ p.procedures)
    {id : BlockId} : id ∈ f.blocks ↔ ∃ b ∈ p.blocks, b.procedure = f.id ∧ b.id = id := by
  simp [hp.listed f hf, blocksOf, and_assoc]

/-- In a regular program no block is listed twice over all procedures. -/
theorem Regular.nodup_listed (hp : p.Regular) :
    (p.procedures.toList.flatMap Procedure.blocks).Nodup := by
  refine List.nodup_flatMap.mpr ⟨fun g hg => ?_, ?_⟩
  · rw [hp.listed g (Array.mem_toList_iff.mp hg), blocksOf]
    have hids : (p.blocks.toList.map Block.id).Nodup := by
      have hindices : ((p.blocks.toList.map Block.id).map BlockId.index).Nodup := by
        rw [List.map_map]
        exact hp.block_id.nodup
      exact hindices.of_map
    exact hids.sublist (List.filter_sublist.map Block.id)
  · refine (List.pairwise_map.mp hp.procedure_id.nodup).imp_of_mem
      fun {g g'} hg hg' hne id hid hid' => ?_
    obtain ⟨c, hc, hcowner, rfl⟩ := (hp.mem_listed_iff (Array.mem_toList_iff.mp hg)).mp hid
    obtain ⟨c', hc', hcowner', hsame⟩ := (hp.mem_listed_iff (Array.mem_toList_iff.mp hg')).mp hid'
    obtain rfl := hp.block_id.eq_of_index_eq hc' hc (congrArg BlockId.index hsame)
    exact hne (congrArg ProcedureId.index (hcowner.symm.trans hcowner'))

/-- In a regular program every block is listed, and once over all procedures. -/
theorem Regular.listed_once (hp : p.Regular) {b : Block} (hb : b ∈ p.blocks) :
    (∃ f ∈ p.procedures, f.id = b.procedure ∧ b.id ∈ f.blocks) ∧
      (p.procedures.toList.flatMap Procedure.blocks).count b.id = 1 := by
  obtain ⟨f, hf, howner⟩ : ∃ f ∈ p.procedures, f.id = b.procedure := by
    have hlt := hp.owned b hb
    have hindex := hp.procedure_id _ _ (Array.getElem?_eq_getElem hlt)
    exact ⟨_, Array.getElem_mem hlt, congrArg ProcedureId.mk (UInt32.toNat_inj.mp hindex)⟩
  have hlisted : b.id ∈ f.blocks := (hp.mem_listed_iff hf).mpr ⟨b, hb, howner.symm, rfl⟩
  exact ⟨⟨f, hf, howner, hlisted⟩, List.count_eq_one_of_mem hp.nodup_listed
    (List.mem_flatMap.mpr ⟨f, Array.mem_toList_iff.mpr hf, hlisted⟩)⟩

end Program

namespace Build

variable {p q : Program}

/-- A change keeps a program regular, as long as there is an identifier for every item. -/
theorem Change.regular (h : Change p q) (hfit : q.Numbered) (hp : p.Regular) : q.Regular := by
  obtain ⟨hnodes, hblocks, hprocedures⟩ := hfit
  cases h with
  | procedure name =>
    rw [Array.size_push] at hprocedures
    exact hp.procedure hprocedures name
  | block label hf =>
    rw [Array.size_push] at hblocks
    exact hp.block hblocks hf label
  | jump hb hnew => exact hp.jump hb hnew
  | external name => exact ⟨hp.node_id, hp.block_id, hp.procedure_id, hp.owned, hp.listed, hp.entry,
      hp.successors_nodup, hp.branch⟩
  | node n hid hn =>
    rw [Array.size_push] at hnodes
    exact hp.node hnodes hid hn

/-- Changes keep a program regular, as long as there is an identifier for every item at the end. -/
theorem Changes.regular (h : Changes p q) (hfit : q.Numbered) (hp : p.Regular) : q.Regular := by
  induction h with
  | refl => exact hp
  | tail _ hchange ih => exact hchange.regular hfit (ih (hchange.numbered hfit))

theorem Changes.block?_mono (h : Changes p q) {place : BlockId} {b : Block}
    (hb : p.block? place = some b) :
    ∃ b', q.block? place = some b' ∧ b.successors ⊆ b'.successors := by
  induction h with
  | refl => exact ⟨b, hb, List.Subset.refl _⟩
  | tail _ hchange ih =>
    obtain ⟨b', hb', hsub⟩ := ih
    obtain ⟨b'', hb'', hsub'⟩ := hchange.block?_mono hb'
    exact ⟨b'', hb'', List.Subset.trans hsub hsub'⟩

/-- A jump that does not fail is recorded afterwards. -/
theorem changes_of_jump {source target : BlockId} {u : Unit}
    (h : (jump source target).run.run p = (.ok u, q)) :
    Changes p q ∧ ∃ b, q.block? source = some b ∧ target ∈ b.successors := by
  unfold jump at h
  rw [run_bind, run_get] at h
  dsimp only at h
  split at h
  · cases h
  · next b hb =>
    split at h
    · next hknown =>
      obtain rfl : p = q := congrArg Prod.snd h
      exact ⟨.refl, b, hb, List.contains_iff_mem.mp hknown⟩
    · next hnew =>
      obtain rfl := congrArg Prod.snd h
      have hlt : source.index.toNat < p.blocks.size := (Array.getElem?_eq_some_iff.mp hb).1
      refine ⟨.single (.jump hb fun hmem => hnew (List.contains_iff_mem.mpr hmem)),
        { b with successors := b.successors ++ [target] }, ?_,
        List.mem_append_right _ List.mem_cons_self⟩
      rw [run_set, Program.block?, Array.getElem?_setIfInBounds, if_pos rfl, if_pos hlt]

/-- A branch that does not fail records its jumps before it appends its node. -/
theorem changes_of_branch {place left right : BlockId} {condition : Operand} {id : NodeId}
    (h : (branch place condition left right).run.run p = (.ok id, q)) : Changes p q := by
  obtain ⟨_, r, hleft, h⟩ := run_bind_ok h
  obtain ⟨_, s, hright, h⟩ := run_bind_ok h
  obtain ⟨hfirst, b, hb, hmem⟩ := changes_of_jump hleft
  obtain ⟨hsecond, b', hb', hmem'⟩ := changes_of_jump hright
  obtain ⟨c, hc, hsub⟩ := hsecond.block?_mono hb
  obtain rfl := Option.some.inj (hc.symm.trans hb')
  obtain rfl := congrArg Prod.snd h
  exact (hfirst.trans hsecond).tail (.node _ rfl fun _ =>
    ⟨condition, left, right, c, rfl, rfl, hc, hsub hmem, hmem'⟩)

/-- A call that does not fail makes changes. -/
theorem Call.changes (call : Call) {u : Unit} (h : call.step.run.run p = (.ok u, q)) :
    Changes p q := by
  cases call with
  | procedure name =>
    obtain rfl := congrArg Prod.snd h
    exact .single (.procedure name)
  | block owner label =>
    obtain ⟨_, r, hblock, h⟩ := run_bind_ok h
    obtain rfl := congrArg Prod.snd h
    have hstate := congrArg Prod.snd hblock
    cases howner : p.procedure? owner with
    | none =>
      simp only [Build.block, run_bind, run_get, run_set, howner, run_throw] at hblock
      cases hblock
    | some f =>
      rw [block_of_present howner] at hstate
      obtain rfl := hstate
      exact .single (.block label howner)
  | jump source target => exact (changes_of_jump h).1
  | external name =>
    obtain rfl := congrArg Prod.snd h
    exact .single (.external name)
  | operation place opcode operands name =>
    obtain rfl := congrArg Prod.snd h
    -- only a call for a branch gives a node successors
    exact .single (.node _ rfl fun hbranch => by simp [Node.isCondBranch] at hbranch)
  | branch place condition left right =>
    obtain ⟨_, r, hbranch, h⟩ := run_bind_ok h
    obtain rfl := congrArg Prod.snd h
    exact changes_of_branch hbranch

/-- Calls of which none fails make changes. -/
theorem changes_of_runCalls {calls : List Call} {u : Unit}
    (h : (runCalls calls).run.run p = (.ok u, q)) : Changes p q := by
  induction calls generalizing p with
  | nil =>
    obtain rfl := congrArg Prod.snd h
    exact .refl
  | cons call calls ih =>
    obtain ⟨_, r, hcall, hrest⟩ := run_bind_ok h
    exact (call.changes hcall).trans (ih hrest)

end Build

namespace Program

/-- What calls build of which none fails is regular, as long as there is an identifier for every
item; and every block is listed once over all procedures, by the one that it names. -/
theorem regular_of_runCalls {name : String} {calls : List Build.Call} {p : Program} {u : Unit}
    (h : (Build.runCalls calls).run.run { name } = (.ok u, p)) (hfit : p.Numbered) :
    p.Regular ∧ ∀ b ∈ p.blocks, (∃ f ∈ p.procedures, f.id = b.procedure ∧ b.id ∈ f.blocks) ∧
      (p.procedures.toList.flatMap Procedure.blocks).count b.id = 1 := by
  have hp : p.Regular := (Build.changes_of_runCalls h).regular hfit (regular_empty name)
  exact ⟨hp, fun b hb => hp.listed_once hb⟩

/-- Calls that build two procedures whose blocks come in turns, a repeated jump and a branch. -/
def turnsCalls : List Build.Call :=
  [.procedure "main", .procedure "helper", .block ⟨0⟩ none, .block ⟨1⟩ (some "entry"),
    .block ⟨0⟩ none, .external "x", .jump ⟨0⟩ ⟨2⟩, .jump ⟨0⟩ ⟨2⟩,
    .operation ⟨0⟩ (.generic "icmp.ult") [.external ⟨0⟩, .constant (.int 8)] none,
    .branch ⟨0⟩ (.node ⟨0⟩) ⟨2⟩ ⟨1⟩]

/-- What these calls build. -/
def turns : Program := ((Build.runCalls turnsCalls).run.run { name := "turns" }).2

/-- The first procedure lists the first and the third block, and the second one the second. -/
theorem turns_regular : turns.Numbered ∧ turns.Regular ∧
    (turns.procedures.toList.flatMap Procedure.blocks).count ⟨1⟩ = 1 ∧
    turns.procedures.toList.map Procedure.blocks = [[⟨0⟩, ⟨2⟩], [⟨1⟩]] := by
  have hrun : (Build.runCalls turnsCalls).run.run { name := "turns" } = (.ok ⟨⟩, turns) :=
    Prod.ext (by decide +kernel) (by rw [turns])
  have hfit : turns.Numbered := by decide +kernel
  obtain ⟨hregular, honce⟩ := regular_of_runCalls hrun hfit
  have hblock : ⟨⟨1⟩, ⟨1⟩, [], some "entry"⟩ ∈ turns.blocks := by decide +kernel
  exact ⟨hfit, hregular, (honce _ hblock).2, by decide +kernel⟩

end Program

end GuardElision
