import GuardElision.Exchange.Classifier
import GuardElision.Proofs.Exchange.Numeral
import GuardElision.Proofs.Exchange.Report
import GuardElision.Proofs.Ordered.Map

/-!
# Classifiers survive the exchange

What a classifier knows of a check is kept under the check's number, as a member of an object. The
order of such members is not that of the numbers: a value kept in memory lists `10` before `9`. The
map is put together by number, so it is the same map whatever order its members come in.
-/

namespace GuardElision

open Json

/-- The members of an object with numbers for names are read in whatever order they come. -/
theorem Json.Matched.mapM_ofCheckMap {α : Type} {encode : α → Json} {decode : Json → Option α}
    (hlossless : Lossless encode decode) {entries : List (CheckId × α)} {f : Fields}
    (h : Matched Reordered (entries.map fun e => (toString e.1.number.toNat, encode e.2)) f) :
    ∃ read, (Json.object f).wordMap? decode = some read ∧
      read.Perm (entries.map fun e => (e.1.number, e.2)) := by
  simp only [wordMap?]
  induction entries generalizing f with
  | nil =>
    cases h
    exact ⟨[], rfl, .refl []⟩
  | cons e rest ih =>
    cases h with
    | @cons _ _ w _ b c hvalue hrest =>
      obtain ⟨read, hread, hperm⟩ := ih hrest
      rw [List.mapM_append] at hread
      obtain ⟨front, hfront, hread⟩ := Option.bind_eq_some_iff.mp hread
      obtain ⟨back, hback, hread⟩ := Option.bind_eq_some_iff.mp hread
      obtain rfl : front ++ back = read := Option.some.inj hread
      refine ⟨front ++ (e.1.number, e.2) :: back, ?_, List.perm_middle.trans (hperm.cons _)⟩
      rw [List.mapM_append, hfront, List.mapM_cons, wordOfText?_toString, hlossless e.2 w hvalue,
        hback]
      rfl

/-- A map from checks is read back if its values are. -/
theorem Json.Lossless.checkMap {α : Type} {encode : α → Json} {decode : Json → Option α}
    (h : Lossless encode decode) : Lossless (ofCheckMap encode) (checkMap? decode) := by
  intro m j hj
  obtain ⟨f, rfl, hmatched⟩ := hj.members
  obtain ⟨read, hread, hperm⟩ := hmatched.mapM_ofCheckMap h
  have hentries : (read.map fun e => ((⟨e.1⟩ : CheckId), e.2)).Perm m.entries := by
    refine (hperm.map _).trans (.of_eq ?_)
    rw [List.map_map]
    exact List.map_id _
  rw [checkMap?, hread, Option.bind_eq_bind, Option.bind_some]
  exact congrArg some (SortedMap.ofList_of_perm hentries)

theorem Classifier.lossless : Lossless Classifier.toJson Classifier.ofJson? := by
  intro k j h
  obtain ⟨f, hf, hfield⟩ := h.fields? ["sanitizer", "user", "cones", "successors"] (by decide)
    (.refl _)
  have hsanitizer : f.defaulted "sanitizer" [] (list? Check.ofJson?) = some k.sanitizer :=
    hfield.defaulted Check.lossless.list rfl
  have huser : f.defaulted "user" [] (list? Check.ofJson?) = some k.user :=
    hfield.defaulted Check.lossless.list rfl
  have hcones : f.defaulted "cones" .empty (checkMap? (list? NodeId.ofJson?)) = some k.cones :=
    hfield.defaulted NodeId.lossless.list.checkMap rfl
  have hexits : f.defaulted "successors" .empty (checkMap? RegularExit.ofJson?) = some k.exits :=
    hfield.defaulted RegularExit.lossless.checkMap rfl
  simp [ofJson?, hf, hsanitizer, huser, hcones, hexits]

end GuardElision
