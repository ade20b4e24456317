import GuardElision.Exchange.Settings
import GuardElision.Proofs.Exchange.Report

/-!
# Settings survive the exchange

Every section and most fields may be missing, but what is written is complete except for the
directory of the traces, the path of the report and the inspected check: what stands is read as it
stands, and no default ever takes its place.
-/

namespace GuardElision

open Json

theorem Level.lossless : Lossless Level.toJson Level.ofJson? :=
  lossless_choice fun l => by cases l <;> exact ⟨_, rfl, rfl⟩

theorem ReportFormat.lossless : Lossless ReportFormat.toJson ReportFormat.ofJson? :=
  lossless_choice fun f => by cases f <;> exact ⟨_, rfl, rfl⟩

theorem PhaseToggles.lossless : Lossless PhaseToggles.toJson PhaseToggles.ofJson? := by
  intro t j h
  obtain ⟨f, hf, hfield⟩ := h.onlyFields? names (by decide) (.refl _)
  have huser : f.defaulted "user_subsumption" true bool? = some t.user :=
    hfield.defaulted lossless_bool rfl
  have hcoverage : f.defaulted "coverage_subsumption" true bool? = some t.coverage :=
    hfield.defaulted lossless_bool rfl
  have hdominance : f.defaulted "dominance_subsumption" true bool? = some t.dominance :=
    hfield.defaulted lossless_bool rfl
  simp [ofJson?, hf, huser, hcoverage, hdominance]

theorem TraceSettings.lossless : Lossless TraceSettings.toJson TraceSettings.ofJson? := by
  intro t j h
  obtain ⟨f, hf, hfield⟩ := h.onlyFields? names (by decide) (by
    rw [List.map_append]
    exact (keys_optionalField t.directory).append (.refl _))
  have hdirectory : f.optional "directory" string? = some t.directory := by
    refine hfield.optional lossless_string rfl ?_
    simp [List.lookup_append, List.lookup_cons]
  have hsanitizer : f.defaulted "sanitizer_extension" "scov" string? =
      some t.sanitizerExtension := by
    refine hfield.defaulted lossless_string ?_
    simp [List.lookup_append]
  have huser : f.defaulted "user_extension" "ucov" string? = some t.userExtension := by
    refine hfield.defaulted lossless_string ?_
    simp [List.lookup_append, List.lookup_cons]
  simp [ofJson?, hf, hdirectory, hsanitizer, huser]

theorem InspectTarget.lossless : Lossless InspectTarget.toJson InspectTarget.ofJson? := by
  intro t j h
  obtain ⟨f, hf, hfield⟩ := h.onlyFields? names (by decide)
    (.cons_cons _ (keys_optionalField t.unit))
  have hcheck : f.required "check_id" CheckId.ofJson? = some t.check :=
    hfield.required CheckId.lossless rfl
  have hunit : f.optional "unit" string? = some t.unit := by
    refine hfield.optional lossless_string rfl ?_
    simp [List.lookup_cons]
  simp [ofJson?, hf, hcheck, hunit]

theorem ReportSettings.lossless : Lossless ReportSettings.toJson ReportSettings.ofJson? := by
  intro r j h
  obtain ⟨f, hf, hfield⟩ := h.onlyFields? names (by decide) (by
    rw [List.map_append, List.map_append]
    exact ((keys_optionalField r.path).append (.refl _)).append (keys_optionalField r.inspect))
  have hpath : f.optional "path" string? = some r.path := by
    refine hfield.optional lossless_string rfl ?_
    simp [List.lookup_append, List.lookup_cons]
  have hformat : f.defaulted "format" .text ReportFormat.ofJson? = some r.format := by
    refine hfield.defaulted ReportFormat.lossless ?_
    simp [List.lookup_append]
  have hinspect : f.optional "inspect" InspectTarget.ofJson? = some r.inspect := by
    refine hfield.optional InspectTarget.lossless rfl ?_
    simp [List.lookup_append, List.lookup_cons]
  simp [ofJson?, hf, hpath, hformat, hinspect]

theorem Limits.lossless : Lossless Limits.toJson Limits.ofJson? := by
  intro l j h
  obtain ⟨f, hf, hfield⟩ := h.onlyFields? names (by decide) (.refl _)
  have hdepth : f.defaulted "max_match_depth" 32 word? = some l.maxMatchDepth :=
    hfield.defaulted lossless_word rfl
  have hstem : f.defaulted "induction_prefix" "indvars" string? = some l.inductionStem :=
    hfield.defaulted lossless_string rfl
  simp [ofJson?, hf, hdepth, hstem]

theorem Settings.lossless : Lossless Settings.toJson Settings.ofJson? := by
  intro s j h
  obtain ⟨f, hf, hfield⟩ := h.fields? names (by decide) (.refl _)
  have hlevel : f.defaulted "level" .standard Level.ofJson? = some s.level :=
    hfield.defaulted Level.lossless rfl
  have hphases : f.defaulted "phases" {} PhaseToggles.ofJson? = some s.phases :=
    hfield.defaulted PhaseToggles.lossless rfl
  have htraces : f.defaulted "traces" {} TraceSettings.ofJson? = some s.traces :=
    hfield.defaulted TraceSettings.lossless rfl
  have hreport : f.defaulted "report" {} ReportSettings.ofJson? = some s.report :=
    hfield.defaulted ReportSettings.lossless rfl
  have hlimits : f.defaulted "limits" {} Limits.ofJson? = some s.limits :=
    hfield.defaulted Limits.lossless rfl
  simp [ofJson?, hf, hlevel, hphases, htraces, hreport, hlimits]

end GuardElision
