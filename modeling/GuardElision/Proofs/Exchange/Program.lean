import GuardElision.Proofs.Exchange.Reordered

/-!
# Programs survive the exchange

One lemma for each type that a program is made of, from identifiers up. A record needs three facts
of its members: that no name comes twice, where each of its fields stands, and that what is left
out is what the decoder assumes when it is missing.
-/

namespace GuardElision

open Json

theorem NodeId.lossless : Lossless NodeId.toJson NodeId.ofJson? :=
  lossless_word32.wrap fun _ => rfl

theorem BlockId.lossless : Lossless BlockId.toJson BlockId.ofJson? :=
  lossless_word32.wrap fun _ => rfl

theorem ProcedureId.lossless : Lossless ProcedureId.toJson ProcedureId.ofJson? :=
  lossless_word32.wrap fun _ => rfl

theorem ExternalId.lossless : Lossless ExternalId.toJson ExternalId.ofJson? :=
  lossless_word32.wrap fun _ => rfl

/-- A name given to an operation is never taken for one of the named opcodes. -/
theorem Opcode.lossless : Lossless Opcode.toJson Opcode.ofJson? := by
  intro o j h
  cases o with
  | generic name =>
    obtain ⟨read, hvariant, hread⟩ := h.variant?
    have hname := lossless_string name read hread
    simp [ofJson?, hvariant, hname]
  | memoryRead => cases h; rfl
  | addressComputation => cases h; rfl
  | controlMerge => cases h; rfl
  | condBranch => cases h; rfl
  | constant => cases h; rfl

theorem Constant.lossless : Lossless Constant.toJson Constant.ofJson? := by
  intro c j h
  cases c with
  | int value =>
    obtain ⟨read, hvariant, hread⟩ := h.variant?
    simp [ofJson?, hvariant, lossless_word value read hread]
  | bool value =>
    obtain ⟨read, hvariant, hread⟩ := h.variant?
    simp [ofJson?, hvariant, lossless_bool value read hread]
  | symbol name =>
    obtain ⟨read, hvariant, hread⟩ := h.variant?
    simp [ofJson?, hvariant, lossless_string name read hread]

theorem Operand.lossless : Lossless Operand.toJson Operand.ofJson? := by
  intro o j h
  cases o with
  | node id =>
    obtain ⟨read, hvariant, hread⟩ := h.variant?
    simp [ofJson?, hvariant, NodeId.lossless id read hread]
  | constant value =>
    obtain ⟨read, hvariant, hread⟩ := h.variant?
    simp [ofJson?, hvariant, Constant.lossless value read hread]
  | external id =>
    obtain ⟨read, hvariant, hread⟩ := h.variant?
    simp [ofJson?, hvariant, ExternalId.lossless id read hread]

/-- The successors of a node are left out exactly if there are none, and then read as none. -/
theorem Node.lossless : Lossless Node.toJson Node.ofJson? := by
  intro n j h
  have hsuccessorsKey : ((if n.successors.isEmpty then []
      else [("successors", ofList BlockId.toJson n.successors)]).map (·.1)).Sublist
        ["successors"] := by
    split
    · exact List.nil_sublist _
    · exact .refl _
  obtain ⟨f, hf, hfield⟩ := h.fields?
    ["id", "opcode", "operands", "block", "name", "successors"] (by decide) (by
      rw [List.map_append, List.map_append]
      exact ((List.Sublist.refl _).append (keys_optionalField n.name)).append hsuccessorsKey)
  have hid : f.required "id" NodeId.ofJson? = some n.id := hfield.required NodeId.lossless rfl
  have hopcode : f.required "opcode" Opcode.ofJson? = some n.opcode :=
    hfield.required Opcode.lossless rfl
  have hoperands : f.required "operands" (list? Operand.ofJson?) = some n.operands :=
    hfield.required Operand.lossless.list rfl
  have hblock : f.required "block" BlockId.ofJson? = some n.block :=
    hfield.required BlockId.lossless rfl
  have hname : f.optional "name" string? = some n.name := by
    refine hfield.optional lossless_string rfl ?_
    cases n.successors <;> simp [List.lookup_append, List.lookup_cons]
  have hsuccessors : f.defaulted "successors" [] (list? BlockId.ofJson?) = some n.successors := by
    cases hs : n.successors with
    | nil =>
      refine hfield.defaulted_of_absent ?_
      simp [List.lookup_cons, hs]
    | cons first rest =>
      refine hfield.defaulted BlockId.lossless.list ?_
      simp [List.lookup_append, List.lookup_cons, hs]
  simp [ofJson?, hf, hid, hopcode, hoperands, hblock, hname, hsuccessors]

theorem Block.lossless : Lossless Block.toJson Block.ofJson? := by
  intro b j h
  obtain ⟨f, hf, hfield⟩ := h.fields? ["id", "procedure", "successors", "label"] (by decide) (by
    rw [List.map_append]
    exact (List.Sublist.refl _).append (keys_optionalField b.label))
  have hid : f.required "id" BlockId.ofJson? = some b.id := hfield.required BlockId.lossless rfl
  have hprocedure : f.required "procedure" ProcedureId.ofJson? = some b.procedure :=
    hfield.required ProcedureId.lossless rfl
  have hsuccessors : f.required "successors" (list? BlockId.ofJson?) = some b.successors :=
    hfield.required BlockId.lossless.list rfl
  have hlabel : f.optional "label" string? = some b.label := by
    refine hfield.optional lossless_string rfl ?_
    simp [List.lookup_cons]
  simp [ofJson?, hf, hid, hprocedure, hsuccessors, hlabel]

theorem Procedure.lossless : Lossless Procedure.toJson Procedure.ofJson? := by
  intro p j h
  obtain ⟨f, hf, hfield⟩ := h.fields? ["id", "name", "entry", "blocks"] (by decide) (.refl _)
  have hid : f.required "id" ProcedureId.ofJson? = some p.id :=
    hfield.required ProcedureId.lossless rfl
  have hname : f.required "name" string? = some p.name := hfield.required lossless_string rfl
  have hentry : f.required "entry" BlockId.ofJson? = some p.entry :=
    hfield.required BlockId.lossless rfl
  have hblocks : f.required "blocks" (list? BlockId.ofJson?) = some p.blocks :=
    hfield.required BlockId.lossless.list rfl
  simp [ofJson?, hf, hid, hname, hentry, hblocks]

theorem Program.lossless : Lossless Program.toJson Program.ofJson? := by
  intro p j h
  obtain ⟨f, hf, hfield⟩ := h.fields?
    ["name", "nodes", "blocks", "procedures", "externals"] (by decide) (.refl _)
  have hname : f.required "name" string? = some p.name := hfield.required lossless_string rfl
  have hnodes : f.required "nodes" (list? Node.ofJson?) = some p.nodes.toList :=
    hfield.required Node.lossless.list rfl
  have hblocks : f.required "blocks" (list? Block.ofJson?) = some p.blocks.toList :=
    hfield.required Block.lossless.list rfl
  have hprocedures : f.required "procedures" (list? Procedure.ofJson?) = some p.procedures.toList :=
    hfield.required Procedure.lossless.list rfl
  have hexternals : f.required "externals" (list? string?) = some p.externals.toList :=
    hfield.required lossless_string.list rfl
  simp [ofJson?, hf, hname, hnodes, hblocks, hprocedures, hexternals]

end GuardElision
