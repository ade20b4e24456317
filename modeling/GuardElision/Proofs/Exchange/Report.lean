import GuardElision.Exchange.Report
import GuardElision.Proofs.Exchange.Program

/-!
# Reports survive the exchange

Checks, warnings, eliminations and reports without the place of an inspected check are read back as
they were written, from a text as from a value. The place is left out: its shares are doubles, and
a numeral that is read can miss the double it was written from in the last place.

A warning carries its kind among its fields. It is found wherever it stands, and what is left when
it is taken away are the fields of the warning in another order.
-/

namespace GuardElision

open Json

theorem CheckId.lossless : Lossless CheckId.toJson CheckId.ofJson? :=
  lossless_word.wrap fun _ => rfl

theorem Origin.lossless : Lossless Origin.toJson Origin.ofJson? :=
  lossless_choice fun o => by cases o <;> exact ⟨_, rfl, rfl⟩

theorem GuardKind.lossless : Lossless GuardKind.toJson GuardKind.ofJson? :=
  lossless_choice fun k => by cases k <;> exact ⟨_, rfl, rfl⟩

theorem RegularExit.lossless : Lossless RegularExit.toJson RegularExit.ofJson? :=
  lossless_choice fun e => by cases e <;> exact ⟨_, rfl, rfl⟩

theorem Phase.lossless : Lossless Phase.toJson Phase.ofJson? :=
  lossless_choice fun p => by cases p <;> exact ⟨_, rfl, rfl⟩

theorem EvidenceMode.lossless : Lossless EvidenceMode.toJson EvidenceMode.ofJson? :=
  lossless_choice fun m => by cases m <;> exact ⟨_, rfl, rfl⟩

theorem Check.lossless : Lossless Check.toJson Check.ofJson? := by
  intro c j h
  obtain ⟨f, hf, hfield⟩ := h.fields? ["id", "branch", "origin", "kind"] (by decide) (.refl _)
  have hid : f.required "id" CheckId.ofJson? = some c.id := hfield.required CheckId.lossless rfl
  have hbranch : f.required "branch" NodeId.ofJson? = some c.branch :=
    hfield.required NodeId.lossless rfl
  have horigin : f.required "origin" Origin.ofJson? = some c.origin :=
    hfield.required Origin.lossless rfl
  have hkind : f.defaulted "kind" .generic GuardKind.ofJson? = some c.kind :=
    hfield.defaulted GuardKind.lossless rfl
  simp [ofJson?, hf, hid, hbranch, horigin, hkind]

namespace Json

@[simp] theorem haveSound_append (a b : Fields) :
    haveSound (a ++ b) = (haveSound a && haveSound b) := by
  induction a with
  | nil => rfl
  | cons m rest ih => simp [haveSound, ih, Bool.and_assoc]

mutual

/-- Whether a value denotes something does not depend on the order of members. -/
theorem isSound_of_reordered : ∀ {i j : Json}, i.Reordered j → j.isSound = i.isSound
  | .null, _, h => by cases h; rfl
  | .bool _, _, h => by cases h; rfl
  | .number _, _, h => by cases h; rfl
  | .string _, _, h => by cases h; rfl
  | .flawed, _, h => by cases h; rfl
  | .array _, _, h => by
    obtain - | - | - | - | hitems := h
    simp only [isSound, areSound_of_reordered hitems]
  | .object _, _, h => by
    obtain ⟨_, rfl, hmembers⟩ := h.members
    simp only [isSound, haveSound_of_matched hmembers]

/-- Whether items denote something does not depend on the order of members. -/
theorem areSound_of_reordered : ∀ {a b : List Json}, List.Forall₂ Reordered a b →
    areSound b = areSound a
  | [], _, h => by cases h; rfl
  | item :: rest, _, h => by
    obtain - | ⟨hitem, hrest⟩ := h
    simp only [areSound, isSound_of_reordered hitem, areSound_of_reordered hrest]

/-- Whether members denote something does not depend on their order. -/
theorem haveSound_of_matched : ∀ {a b : Fields}, Matched Reordered a b →
    haveSound b = haveSound a
  | [], _, h => by cases h; rfl
  | (name, value) :: rest, _, h => by
    cases h with
    | @cons _ _ w _ b c hvalue hrest =>
      have hrest := haveSound_of_matched hrest
      rw [haveSound_append] at hrest
      simp only [haveSound_append, haveSound, isSound_of_reordered hvalue, ← hrest]
      ac_rfl

end

end Json

/-- The kind of a warning is found among its members in any order, and what is left has the other
members in some order. -/
theorem Warning.kind?_of_reordered {kind : String} {fields : Json.Fields} {j : Json}
    (h : (Json.object (("kind", .string kind) :: fields)).Reordered j)
    (hnodup : ("kind" :: fields.map (·.1)).Nodup) :
    ∃ data, Warning.kind? j = some (kind, data) ∧ (Json.object fields).Reordered data := by
  obtain ⟨f, rfl, hmatched⟩ := h.members
  have hrest := hmatched.filter fun name => name != "kind"
  have hown : ((("kind", Json.string kind) :: fields).filter fun m => m.1 != "kind") = fields := by
    rw [List.filter_cons_of_neg (by simp), List.filter_eq_self]
    intro m hm
    have hne : m.1 ≠ "kind" := fun heq =>
      (List.nodup_cons.mp hnodup).1 (heq ▸ List.mem_map_of_mem hm)
    simpa using hne
  rw [hown] at hrest
  obtain ⟨_, hkind, hread⟩ := (hmatched.agree hnodup).present List.lookup_cons_self
  cases hread
  refine ⟨.object (f.filter fun m => m.1 != "kind"), ?_, .object hrest⟩
  simp [kind?, hmatched.single hnodup "kind", hkind, string?]

theorem Warning.lossless : Lossless Warning.toJson Warning.ofJson? := by
  intro w j h
  have hsound : j.isSound = true := by
    rw [isSound_of_reordered h]
    cases w <;> rfl
  cases w with
  | mismatchedEvidence trace reason =>
    obtain ⟨data, hkind, hdata⟩ := kind?_of_reordered h (by simp)
    obtain ⟨f, hf, hfield⟩ := hdata.fields? ["trace", "reason"] (by decide) (.refl _)
    have htrace : f.required "trace" string? = some trace := hfield.required lossless_string rfl
    have hreason : f.required "reason" string? = some reason := hfield.required lossless_string rfl
    simp [ofJson?, hsound, hkind, hf, htrace, hreason]
  | coverageSkipped reason =>
    obtain ⟨data, hkind, hdata⟩ := kind?_of_reordered h (by simp)
    obtain ⟨f, hf, hfield⟩ := hdata.fields? ["reason"] (by decide) (.refl _)
    have hreason : f.required "reason" string? = some reason := hfield.required lossless_string rfl
    simp [ofJson?, hsound, hkind, hf, hreason]
  | ambiguousOutcome check =>
    obtain ⟨data, hkind, hdata⟩ := kind?_of_reordered h (by simp)
    obtain ⟨f, hf, hfield⟩ := hdata.fields? ["check"] (by decide) (.refl _)
    have hcheck : f.required "check" CheckId.ofJson? = some check :=
      hfield.required CheckId.lossless rfl
    simp [ofJson?, hsound, hkind, hf, hcheck]

/-- The constant of a folded branch stands among named fields, so both media take it. -/
theorem FoldOutcome.lossless (medium : Medium) :
    Lossless FoldOutcome.toJson (FoldOutcome.ofJson? medium) := by
  intro o j h
  cases o with
  | folded value =>
    obtain ⟨data, hvariant, hdata⟩ := h.variant?
    obtain ⟨f, hf, hfield⟩ := hdata.fields? ["value"] (by decide) (.refl _)
    have hvalue : f.required "value" bool? = some value := hfield.required lossless_bool rfl
    have hmedium : variantFields? ["value"] medium data = some f := by
      obtain ⟨members, rfl, -⟩ := hdata.members
      cases medium <;> exact hf
    simp [ofJson?, hvariant, hmedium, hvalue]
  | alreadyConstant => cases h; rfl
  | ambiguous => cases h; rfl

theorem Elimination.lossless (medium : Medium) :
    Lossless Elimination.toJson (Elimination.ofJson? medium) := by
  intro e j h
  obtain ⟨f, hf, hfield⟩ := h.fields? ["check", "by", "phase", "count", "rewrite"] (by decide) (.refl _)
  have hcheck : f.required "check" CheckId.ofJson? = some e.check :=
    hfield.required CheckId.lossless rfl
  have hby : f.required "by" CheckId.ofJson? = some e.reason.coverer :=
    hfield.required CheckId.lossless rfl
  have hphase : f.required "phase" Phase.ofJson? = some e.reason.phase :=
    hfield.required Phase.lossless rfl
  have hcount : f.required "count" word? = some e.reason.count := hfield.required lossless_word rfl
  have houtcome : f.required "rewrite" (FoldOutcome.ofJson? medium) = some e.outcome :=
    hfield.required (FoldOutcome.lossless medium) rfl
  simp [ofJson?, hf, hcheck, hby, hphase, hcount, houtcome]

private theorem bind_of_some {α β : Type} {x : Option α} {a : α} (h : x = some a)
    (next : α → Option β) : (x >>= next) = next a := by
  rw [h]
  rfl

/-- A report without the place of an inspected check is read back from both media. -/
theorem Report.ofJson?_of_reordered (medium : Medium) {r : Report} (hdetail : r.detail = none)
    {j : Json} (h : r.toJson.Reordered j) : Report.ofJson? medium j = some r := by
  obtain ⟨f, hf, hfield⟩ := h.fields?
    ["unit", "num_user_checks", "num_checks", "after_phase1", "after_phase2", "after_phase3",
      "weight", "weight_after_phase1", "weight_after_phase2", "weight_after_phase3", "total_cost",
      "total_cost_after", "evidence", "warnings", "eliminated", "detail"] (by decide) (by
    rw [List.map_append]
    exact (List.Sublist.refl _).append (keys_optionalField r.detail))
  have hunit : f.required "unit" string? = some r.unit := hfield.required lossless_string rfl
  have huserChecks : f.required "num_user_checks" word? = some r.userChecks :=
    hfield.required lossless_word rfl
  have hchecks : f.required "num_checks" word? = some r.checks :=
    hfield.required lossless_word rfl
  have hafterPhase1 : f.required "after_phase1" word? = some r.afterPhase1 :=
    hfield.required lossless_word rfl
  have hafterPhase2 : f.required "after_phase2" word? = some r.afterPhase2 :=
    hfield.required lossless_word rfl
  have hafterPhase3 : f.required "after_phase3" word? = some r.afterPhase3 :=
    hfield.required lossless_word rfl
  have hweight : f.required "weight" word? = some r.weight := hfield.required lossless_word rfl
  have hweight1 : f.required "weight_after_phase1" word? = some r.weightAfterPhase1 :=
    hfield.required lossless_word rfl
  have hweight2 : f.required "weight_after_phase2" word? = some r.weightAfterPhase2 :=
    hfield.required lossless_word rfl
  have hweight3 : f.required "weight_after_phase3" word? = some r.weightAfterPhase3 :=
    hfield.required lossless_word rfl
  have htotal : f.required "total_cost" word? = some r.totalCost :=
    hfield.required lossless_word rfl
  have htotalAfter : f.required "total_cost_after" word? = some r.totalCostAfter :=
    hfield.required lossless_word rfl
  have hevidence : f.required "evidence" EvidenceMode.ofJson? = some r.evidence :=
    hfield.required EvidenceMode.lossless rfl
  have hwarnings : f.required "warnings" (list? Warning.ofJson?) = some r.warnings :=
    hfield.required Warning.lossless.list rfl
  have heliminated : f.required "eliminated" (list? (Elimination.ofJson? medium)) =
      some r.eliminated :=
    hfield.required (Elimination.lossless medium).list rfl
  have hplace : f.optional "detail" CheckDetail.ofJson? = some r.detail := by
    rw [hdetail]
    refine hfield.optional_of_absent ?_
    simp [List.lookup_cons, hdetail]
  -- One field after the other: simplifying all at once goes through the rest again at each field.
  rw [ofJson?, bind_of_some hf, bind_of_some hunit, bind_of_some huserChecks, bind_of_some hchecks,
    bind_of_some hafterPhase1, bind_of_some hafterPhase2, bind_of_some hafterPhase3,
    bind_of_some hweight, bind_of_some hweight1, bind_of_some hweight2, bind_of_some hweight3,
    bind_of_some htotal, bind_of_some htotalAfter, bind_of_some hevidence, bind_of_some hwarnings,
    bind_of_some heliminated, bind_of_some hplace]
  rfl

end GuardElision
