import GuardElision.Proofs.Exchange.Classifier
import GuardElision.Proofs.Exchange.Document
import GuardElision.Proofs.Exchange.Settings

/-!
# Nothing is lost in the exchange

Programs, classifiers, settings and reports are written as JSON and read back, and settings are
exported as a document and loaded again. Fields that were left out, sections with defaults and
members that were put in another order make no difference to what is read.
-/

namespace GuardElision

/-- What was written is what is read, from the value that was written and from every value that has
its members in another order; for a report, if it has no place of an inspected check. Settings that
make sense are also what is loaded from the document they are exported as, and from every text that
is read as that document. -/
theorem exchange_lossless :
    (∀ (p : Program) (j : Json), p.toJson.Reordered j → Program.ofJson? j = some p) ∧
      (∀ (k : Classifier) (j : Json), k.toJson.Reordered j → Classifier.ofJson? j = some k) ∧
      (∀ (s : Settings) (j : Json), s.toJson.Reordered j → Settings.ofJson? j = some s) ∧
      (∀ (medium : Json.Medium) (r : Report) (j : Json), r.detail = none → r.toJson.Reordered j →
        Report.ofJson? medium j = some r) ∧
      ∀ s : Settings, s.validate = .ok () →
        Settings.Document.ofYaml? s.toDocument.toYaml = some s.toDocument ∧
        Settings.ofDocument s.toDocument = .ok s ∧
        ∀ text, Yaml.parse? text = some s.toDocument.toYaml → Settings.parse text = .ok s := by
  refine ⟨Program.lossless, Classifier.lossless, Settings.lossless,
    fun medium r j hdetail h => Report.ofJson?_of_reordered medium hdetail h, fun s hvalid => ?_⟩
  have hloaded : Settings.ofDocument s.toDocument = .ok s := by
    rw [Settings.ofDocument_toDocument, hvalid]
    rfl
  exact ⟨Settings.Document.lossless_yaml s.toDocument, hloaded, fun text htext =>
    Settings.parse_of_toYaml hvalid htext⟩

/-- A classifier whose members are sorted by name, so that the tenth check comes before the ninth; a
report with each kind of warning; and settings whose report goes to a file called `null`. -/
theorem exchange_lossless_by_name :
    Classifier.ofJson? (.object [("cones", .object []), ("sanitizer", .array []),
        ("successors", .object [("10", .string "right"), ("9", .string "left")]),
        ("user", .array [])]) =
      some { exits := .ofList [(⟨9⟩, .left), (⟨10⟩, .right)] } ∧
    (let r : Report := {
      unit := "loop", userChecks := 1, checks := 2, afterPhase1 := 1, afterPhase2 := 1,
      afterPhase3 := 1, weight := 7, weightAfterPhase1 := 3, weightAfterPhase2 := 3,
      weightAfterPhase3 := 3, totalCost := 14, totalCostAfter := 6, evidence := .dynamic,
      warnings := [.mismatchedEvidence "loop.scov" "odd size", .coverageSkipped "no traces",
        .ambiguousOutcome ⟨2⟩],
      eliminated := [⟨⟨2⟩, ⟨4, .user, ⟨1⟩⟩, .folded true⟩, ⟨⟨3⟩, ⟨0, .dominance, ⟨2⟩⟩, .ambiguous⟩] }
    ∀ medium, Report.ofJson? medium r.toJson = some r) ∧
    (let s : Settings := { report := { path := some "null" } }
    Settings.Document.ofYaml? s.toDocument.toYaml = some s.toDocument ∧
      Settings.ofDocument s.toDocument = .ok s) := by
  obtain ⟨-, hclassifier, -, hreport, hdocument⟩ := exchange_lossless
  have hexits : (Json.ofCheckMap RegularExit.toJson
      (.ofList [(⟨9⟩, .left), (⟨10⟩, .right)])).Reordered
        (.object [("10", .string "right"), ("9", .string "left")]) :=
    .object (.cons (b := [("10", .string "right")]) (.string "left") (Json.Reordered.refl_members _))
  refine ⟨hclassifier _ _ ?_, fun medium => hreport medium _ _ rfl (.refl _), ?_⟩
  · exact .object (.cons (b := [("cones", .object [])]) (.refl _)
      (.cons (b := [("cones", _), ("successors", _)]) (.refl _)
        (.cons (b := []) (.refl _) (.cons (b := []) hexits .nil))))
  · have h := hdocument { report := { path := some "null" } } rfl
    exact ⟨h.1, h.2.1⟩

end GuardElision
