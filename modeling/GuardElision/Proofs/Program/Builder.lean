import GuardElision.Program.Builder

/-!
# Built programs

A program is built by calls that each append something or add a jump; a call that fails keeps
what it had appended. As long as there is an identifier for every block, each procedure of a
built program carries its position as its identifier, lists only blocks that exist and that
name it as their procedure, and starts with a block that it lists. In particular no two
procedures list the same block.
-/

namespace GuardElision

namespace Build

/-- A call of the builder. -/
inductive Call where
  | procedure (name : String)
  | block (owner : ProcedureId) (label : Option String)
  | jump (source target : BlockId)
  | external (name : String)
  | operation (place : BlockId) (opcode : Opcode) (operands : List Operand) (name : Option String)
  | branch (place : BlockId) (condition : Operand) (left right : BlockId)

/-- What a call makes of a program, whether it fails or not. -/
def Call.perform (p : Program) (call : Call) : Program :=
  match call with
  | .procedure name => ((Build.procedure name).run.run p).2
  | .block owner label => ((Build.block owner label).run.run p).2
  | .jump source target => ((Build.jump source target).run.run p).2
  | .external name => ((Build.external name).run.run p).2
  | .operation place opcode operands name =>
    ((Build.operation place opcode operands name).run.run p).2
  | .branch place condition left right =>
    ((Build.branch place condition left right).run.run p).2

/-- The program that a sequence of calls builds from nothing. -/
def grow (name : String) (calls : List Call) : Program :=
  calls.foldl Call.perform { name }

section Running

/-- The second of two steps runs unless the first one fails. -/
theorem run_bind {α β : Type} (x : Build α) (f : α → Build β) (p : Program) :
    (x >>= f).run.run p =
      match x.run.run p with
      | (.ok a, q) => (f a).run.run q
      | (.error e, q) => (.error e, q) := by
  unfold ExceptT.run StateT.run
  simp only [bind, ExceptT.bind, ExceptT.mk, StateT.bind, ExceptT.bindCont]
  cases x p with
  | mk result q => cases result <;> rfl

theorem run_get (p : Program) : (get : Build Program).run.run p = (.ok p, p) := rfl

theorem run_set (p q : Program) : (set q : Build PUnit).run.run p = (.ok ⟨⟩, q) := rfl

theorem run_modify (f : Program → Program) (p : Program) :
    (modify f : Build PUnit).run.run p = (.ok ⟨⟩, f p) := rfl

theorem run_pure {α : Type} (a : α) (p : Program) :
    (pure a : Build α).run.run p = (.ok a, p) := rfl

theorem run_throw {α : Type} (e : BuildError) (p : Program) :
    (throw e : Build α).run.run p = (.error e, p) := rfl

/-- The block that is appended next. -/
def nextBlock (p : Program) (owner : ProcedureId) (label : Option String) : Block :=
  { id := ⟨UInt32.ofNat p.blocks.size⟩, procedure := owner, successors := [], label }

/-- Without its procedure a block is appended but listed nowhere. -/
theorem block_of_missing {p : Program} {owner : ProcedureId} (h : p.procedure? owner = none)
    (label : Option String) : ((block owner label).run.run p).2 =
      { p with blocks := p.blocks.push (nextBlock p owner label) } := by
  simp only [block, run_bind, run_get, run_set, h, run_throw, nextBlock]

/-- A block is appended and listed in its procedure. -/
theorem block_of_present {p : Program} {owner : ProcedureId} {f : Procedure}
    (h : p.procedure? owner = some f) (label : Option String) :
    ((block owner label).run.run p).2 =
      { p with
        blocks := p.blocks.push (nextBlock p owner label)
        procedures := p.procedures.setIfInBounds owner.index.toNat
          (enlist f ⟨UInt32.ofNat p.blocks.size⟩) } := by
  simp only [block, run_bind, run_get, run_set, h, run_modify, run_pure, nextBlock]

/-- A jump changes nothing, or one block's successors. -/
theorem jump_cases (p : Program) (source target : BlockId) :
    ((jump source target).run.run p).2 = p ∨ ∃ b, p.block? source = some b ∧
      ((jump source target).run.run p).2 = { p with
        blocks := p.blocks.setIfInBounds source.index.toNat
          { b with successors := b.successors ++ [target] } } := by
  unfold jump
  rw [run_bind, run_get]
  dsimp only
  split
  · exact .inl rfl
  · next b hb =>
    split
    · exact .inl rfl
    · exact .inr ⟨b, hb, rfl⟩

end Running

/-- Blocks may be added, and none changes its procedure. -/
structure KeepsBlocks (p q : Program) : Prop where
  size_le : p.blocks.size ≤ q.blocks.size
  block? : ∀ b block, p.block? b = some block →
    ∃ block', q.block? b = some block' ∧ block'.procedure = block.procedure

theorem KeepsBlocks.refl (p : Program) : KeepsBlocks p p :=
  ⟨Nat.le_refl _, fun _ block h => ⟨block, h, rfl⟩⟩

theorem KeepsBlocks.trans {p q r : Program} (hpq : KeepsBlocks p q) (hqr : KeepsBlocks q r) :
    KeepsBlocks p r := by
  refine ⟨Nat.le_trans hpq.size_le hqr.size_le, fun b block h => ?_⟩
  obtain ⟨block', h', hproc⟩ := hpq.block? b block h
  obtain ⟨block'', h'', hproc'⟩ := hqr.block? b block' h'
  exact ⟨block'', h'', hproc'.trans hproc⟩

theorem keepsBlocks_of_push {p q : Program} {block : Block} (h : q.blocks = p.blocks.push block) :
    KeepsBlocks p q := by
  refine ⟨by simp [h], fun b block' hb => ⟨block', ?_, rfl⟩⟩
  have hlt : b.index.toNat < p.blocks.size := (Array.getElem?_eq_some_iff.mp hb).1
  rw [Program.block?, h, Array.getElem?_push, if_neg (Nat.ne_of_lt hlt)]
  exact hb

/-- A jump leaves the procedures and the blocks' procedures as they are. -/
theorem keeps_jump (p : Program) (source target : BlockId) :
    ((jump source target).run.run p).2.procedures = p.procedures ∧
      KeepsBlocks p ((jump source target).run.run p).2 := by
  rcases jump_cases p source target with h | ⟨b, hb, h⟩
  · rw [h]
    exact ⟨rfl, .refl p⟩
  · rw [h]
    refine ⟨rfl, by simp, fun other block hblock => ?_⟩
    rw [Program.block?, Array.getElem?_setIfInBounds]
    split
    · next heq =>
      have hlt : source.index.toNat < p.blocks.size := (Array.getElem?_eq_some_iff.mp hb).1
      rw [if_pos hlt]
      have hsame : some b = some block := by
        rw [← hb, ← hblock, Program.block?, Program.block?, heq]
      have hproc : b.procedure = block.procedure :=
        congrArg Block.procedure (Option.some.inj hsame)
      exact ⟨_, rfl, hproc⟩
    · exact ⟨block, hblock, rfl⟩

/-- A branch is two jumps and an operation. -/
theorem keeps_branch (p : Program) (place : BlockId) (condition : Operand) (left right : BlockId) :
    ((branch place condition left right).run.run p).2.procedures = p.procedures ∧
      KeepsBlocks p ((branch place condition left right).run.run p).2 := by
  obtain ⟨hproc, hkeeps⟩ := keeps_jump p place left
  obtain ⟨hproc', hkeeps'⟩ := keeps_jump ((jump place left).run.run p).2 place right
  unfold branch
  rw [run_bind]
  split
  · next q hq =>
    rw [hq] at hproc hkeeps hproc' hkeeps'
    rw [run_bind]
    split
    · next r hr =>
      rw [hr] at hproc' hkeeps'
      -- the operation that follows the jumps touches neither blocks nor procedures
      exact ⟨hproc'.trans hproc, hkeeps.trans ⟨hkeeps'.size_le, hkeeps'.block?⟩⟩
    · next r hr =>
      rw [hr] at hproc' hkeeps'
      exact ⟨hproc'.trans hproc, hkeeps.trans hkeeps'⟩
  · next q hq =>
    rw [hq] at hproc hkeeps
    exact ⟨hproc, hkeeps⟩

/-- What a call does to the procedures: nothing, or it appends one without blocks, or it lists a
block in one. Blocks are only ever added. -/
theorem Call.perform_cases (p : Program) (call : Call) :
    KeepsBlocks p (call.perform p) ∧
      ((call.perform p).procedures = p.procedures ∨
        (∃ name, (call.perform p).procedures =
          p.procedures.push ⟨⟨UInt32.ofNat p.procedures.size⟩, name, noEntry, []⟩) ∨
        ∃ owner f label, p.procedure? owner = some f ∧
          (call.perform p).blocks = p.blocks.push (nextBlock p owner label) ∧
          (call.perform p).procedures = p.procedures.setIfInBounds owner.index.toNat
            (enlist f ⟨UInt32.ofNat p.blocks.size⟩)) := by
  cases call with
  | procedure name => exact ⟨⟨Nat.le_refl _, fun _ b h => ⟨b, h, rfl⟩⟩, .inr (.inl ⟨name, rfl⟩)⟩
  | block owner label =>
    rw [perform]
    cases h : p.procedure? owner with
    | none =>
      rw [block_of_missing h]
      exact ⟨keepsBlocks_of_push rfl, .inl rfl⟩
    | some f =>
      rw [block_of_present h]
      exact ⟨keepsBlocks_of_push rfl, .inr (.inr ⟨owner, f, label, h, rfl, rfl⟩)⟩
  | jump source target =>
    obtain ⟨hproc, hkeeps⟩ := keeps_jump p source target
    exact ⟨hkeeps, .inl hproc⟩
  | external name => exact ⟨⟨Nat.le_refl _, fun _ b h => ⟨b, h, rfl⟩⟩, .inl rfl⟩
  | operation place opcode operands name =>
    exact ⟨⟨Nat.le_refl _, fun _ b h => ⟨b, h, rfl⟩⟩, .inl rfl⟩
  | branch place condition left right =>
    obtain ⟨hproc, hkeeps⟩ := keeps_branch p place condition left right
    exact ⟨hkeeps, .inl hproc⟩

end Build

/-- A procedure at a position carries it as its identifier, lists blocks of its own, and starts
with one of them. -/
structure Procedure.Tidy (p : Program) (position : Nat) (f : Procedure) : Prop where
  id_eq : f.id = ⟨UInt32.ofNat position⟩
  owns : ∀ b ∈ f.blocks, ∃ block, p.block? b = some block ∧ block.procedure = f.id
  entry_mem : f.blocks ≠ [] → f.entry ∈ f.blocks

namespace Program

/-- Some calls of the builder make the program from nothing. -/
def Built (p : Program) : Prop := ∃ name calls, Build.grow name calls = p

/-- Every procedure is tidy. -/
def Tidy (p : Program) : Prop :=
  ∀ (i : Nat) (f : Procedure), p.procedures[i]? = some f → f.Tidy p i

/-- There is an identifier for each block and each procedure. -/
def Fits (p : Program) : Prop :=
  p.blocks.size ≤ UInt32.size ∧ p.procedures.size ≤ UInt32.size

instance (p : Program) : Decidable p.Fits := inferInstanceAs (Decidable (_ ∧ _))

end Program

theorem Procedure.Tidy.mono {p q : Program} {position : Nat} {f : Procedure}
    (h : f.Tidy p position) (hkeeps : Build.KeepsBlocks p q) : f.Tidy q position := by
  refine ⟨h.id_eq, fun b hb => ?_, h.entry_mem⟩
  obtain ⟨block, hblock, hproc⟩ := h.owns b hb
  obtain ⟨block', hblock', hproc'⟩ := hkeeps.block? b block hblock
  exact ⟨block', hblock', hproc'.trans hproc⟩

/-- A tidy procedure stays tidy when a block of its own is listed. -/
theorem Procedure.Tidy.enlist {p : Program} {position : Nat} {f : Procedure}
    (h : f.Tidy p position) {id : BlockId} {block : Block} (hblock : p.block? id = some block)
    (hproc : block.procedure = f.id) : (Build.enlist f id).Tidy p position := by
  refine ⟨h.id_eq, fun b hb => ?_, fun _ => ?_⟩
  · rcases List.mem_append.mp hb with hb | hb
    · exact h.owns b hb
    · obtain rfl := List.mem_singleton.mp hb
      exact ⟨block, hblock, hproc⟩
  · cases hblocks : f.blocks with
    | nil => simp [Build.enlist, hblocks]
    | cons first rest =>
      have hentry := h.entry_mem (by simp [hblocks])
      simp only [Build.enlist, List.mem_append]
      exact .inl (by simpa [hblocks] using hentry)

namespace Build

/-- The block that is appended next is found by its identifier, as long as there is one for it. -/
theorem block?_nextBlock {p q : Program} {owner : ProcedureId} {label : Option String}
    (h : q.blocks = p.blocks.push (nextBlock p owner label)) (hfit : q.blocks.size ≤ UInt32.size) :
    q.block? ⟨UInt32.ofNat p.blocks.size⟩ = some (nextBlock p owner label) := by
  have hlt : p.blocks.size < UInt32.size := by
    rw [h, Array.size_push] at hfit
    omega
  rw [Program.block?, UInt32.toNat_ofNat_of_lt' hlt, h, Array.getElem?_push, if_pos rfl]

/-- A call keeps a program tidy, as long as there is an identifier for every block. -/
theorem Call.tidy_perform {p : Program} (hp : p.Tidy) (call : Call)
    (hfit : (call.perform p).blocks.size ≤ UInt32.size) : (call.perform p).Tidy := by
  obtain ⟨hkeeps, hsame | ⟨name, hpush⟩ | ⟨owner, f, label, howner, hblocks, hlist⟩⟩ :=
    call.perform_cases p
  · intro i g hg
    rw [hsame] at hg
    exact (hp i g hg).mono hkeeps
  · intro i g hg
    rw [hpush, Array.getElem?_push] at hg
    split at hg
    · next hi =>
      obtain rfl := Option.some.inj hg
      exact ⟨by rw [hi], nofun, nofun⟩
    · exact (hp i g hg).mono hkeeps
  · intro i g hg
    rw [hlist, Array.getElem?_setIfInBounds] at hg
    split at hg
    · next hi =>
      have hf : f.Tidy p i := hp i f (hi ▸ howner)
      have hid : f.id = owner := by
        rw [hf.id_eq, ← hi, UInt32.ofNat_toNat]
      split at hg
      · obtain rfl := Option.some.inj hg
        exact (hf.mono hkeeps).enlist (block?_nextBlock hblocks hfit) hid.symm
      · cases hg
    · exact (hp i g hg).mono hkeeps

/-- Calls only ever add blocks. -/
theorem blocks_size_le_foldl (calls : List Call) (p : Program) :
    p.blocks.size ≤ (calls.foldl Call.perform p).blocks.size := by
  induction calls generalizing p with
  | nil => exact Nat.le_refl _
  | cons call calls ih => exact Nat.le_trans (call.perform_cases p).1.size_le (ih _)

/-- Calls keep a program tidy, as long as there is an identifier for every block at the end. -/
theorem tidy_foldl (calls : List Call) {p : Program} (hp : p.Tidy)
    (hfit : (calls.foldl Call.perform p).blocks.size ≤ UInt32.size) :
    (calls.foldl Call.perform p).Tidy := by
  induction calls generalizing p with
  | nil => exact hp
  | cons call calls ih =>
    have hstep := Nat.le_trans (blocks_size_le_foldl calls (call.perform p)) hfit
    exact ih (call.tidy_perform hp hstep) hfit

/-- A built program is tidy, as long as there is an identifier for every block. -/
theorem tidy_grow {name : String} {calls : List Call}
    (hfit : (grow name calls).blocks.size ≤ UInt32.size) : (grow name calls).Tidy :=
  tidy_foldl calls (fun i f hf => by simp at hf) hfit

end Build

namespace Program.Tidy

variable {p : Program} (hp : p.Tidy) (hfit : p.procedures.size ≤ UInt32.size)

include hp hfit

/-- A procedure is found by its identifier. -/
theorem procedure?_id {f : Procedure} (hf : f ∈ p.procedures) : p.procedure? f.id = some f := by
  obtain ⟨i, hi⟩ := Array.mem_iff_getElem?.mp hf
  have hlt : i < UInt32.size := Nat.lt_of_lt_of_le (Array.getElem?_eq_some_iff.mp hi).1 hfit
  rw [(hp i f hi).id_eq, procedure?, UInt32.toNat_ofNat_of_lt' hlt, hi]

/-- No two procedures list the same block. -/
theorem eq_of_mem_blocks {f g : Procedure} (hf : f ∈ p.procedures) (hg : g ∈ p.procedures)
    {b : BlockId} (hbf : b ∈ f.blocks) (hbg : b ∈ g.blocks) : f = g := by
  obtain ⟨i, hi⟩ := Array.mem_iff_getElem?.mp hf
  obtain ⟨j, hj⟩ := Array.mem_iff_getElem?.mp hg
  obtain ⟨block, hblock, hproc⟩ := (hp i f hi).owns b hbf
  obtain ⟨block', hblock', hproc'⟩ := (hp j g hj).owns b hbg
  obtain rfl := Option.some.inj (hblock.symm.trans hblock')
  have hid : f.id = g.id := hproc.symm.trans hproc'
  exact Option.some.inj ((hp.procedure?_id hfit hf).symm.trans (hid ▸ hp.procedure?_id hfit hg))

end Program.Tidy

end GuardElision
