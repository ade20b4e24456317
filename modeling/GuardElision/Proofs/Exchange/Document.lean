import GuardElision.Proofs.Exchange.Numeral
import GuardElision.Settings.Document
import Mathlib.Data.List.Nodup

/-!
# Settings documents survive the exchange

A document that was exported is read back as it was written, and its settings are the ones that
were exported whenever they make sense. Scalars are where this could fail: a text that would be
taken for nothing is not written plainly, and what stands for a number or a truth value is.
-/

namespace GuardElision

namespace Yaml

/-- A decoder reads back what was encoded. -/
def Lossless {α : Type} (encode : α → Yaml) (decode : Yaml → Option α) : Prop :=
  ∀ x, decode (encode x) = some x

/-- What is encoded never stands for nothing. -/
def Present {α : Type} (encode : α → Yaml) : Prop := ∀ x, (encode x).isNothing? = some false

section Scalars

/-- A text that stands plainly is not a word for nothing. -/
theorem isNull_of_styleOf {text : String} (h : styleOf text = .plain) : isNull text = false := by
  cases htaken : isTaken text with
  | false =>
    simp only [isTaken, Bool.or_eq_false_iff] at htaken
    exact htaken.1.1.1.1
  | true =>
    simp only [styleOf, htaken, Bool.not_true, Bool.false_and, Bool.false_eq_true, if_false] at h
    split at h <;> split at h <;> cases h

theorem present_text : Present ofText := by
  intro text
  cases h : styleOf text with
  | plain => simp [ofText, h, isNothing?, isNull_of_styleOf h]
  | _ => simp [ofText, h, isNothing?]

theorem lossless_text : Lossless ofText text? := fun _ => rfl

theorem lossless_bool : Lossless ofBool bool? := by
  intro b
  cases b <;> rfl

theorem lossless_word : Lossless (fun n : UInt64 => ofNat n.toNat) Yaml.word? := by
  intro n
  have hvalue : ((ofNat n.toNat).valueText? "int").bind naturalOf? = some n.toNat :=
    naturalOf?_toString n.toNat
  rw [word?, hvalue, Option.bind_eq_bind, Option.bind_some, if_pos n.toNat_lt_size,
    UInt64.ofNat_toNat]

theorem lossless_word32 : Lossless (fun n : UInt32 => ofNat n.toNat) word32? := by
  intro n
  have hword : (ofNat n.toNat).word? = some n.toUInt64 := by
    rw [← UInt32.toNat_toUInt64]
    exact lossless_word n.toUInt64
  simp [word32?, hword, n.toNat_lt_size]

/-- A word for nothing is no number. -/
theorem naturalOf?_of_isNull {text : String} (h : isNull text = true) : naturalOf? text = none := by
  simp only [isNull, List.contains_iff_mem, List.mem_cons, List.not_mem_nil, or_false] at h
  obtain rfl | rfl | rfl | rfl | rfl := h <;> rfl

theorem present_nat {α : Type} (number : α → Nat) : Present fun x => ofNat (number x) := by
  intro x
  cases hnull : isNull (toString (number x)) with
  | false => exact congrArg some hnull
  | true =>
    have hnumber := naturalOf?_toString (number x)
    rw [naturalOf?_of_isNull hnull] at hnumber
    cases hnumber

end Scalars

section Mappings

variable {α : Type} {encode : α → Yaml} {decode : Yaml → Option α} {entries : List (String × Yaml)}
  {name : String}

theorem present_mapping {fields : α → List (String × Yaml)} :
    Present fun x => .mapping (fields x) := fun _ => rfl

/-- The entries of a mapping that lists some of the known keys in their order answer every look-up
as they stand. -/
theorem entries?_mapping (names : List String) (hnames : names.Nodup)
    (hkeys : (entries.map (·.1)).Sublist names) :
    ∃ e, (Yaml.mapping entries).entries? names = some e ∧
      ∀ key, e.lookup key = entries.lookup key := by
  have hknown : (entries.map (·.1)).all names.contains = true :=
    List.all_eq_true.mpr fun _ hkey => List.contains_iff_mem.mpr (hkeys.subset hkey)
  have hsingle : (names.all fun n => ((entries.map (·.1)).filter (· == n)).length ≤ 1) = true := by
    rw [List.all_eq_true]
    intro n _
    have hcount := List.nodup_iff_count_le_one.mp (hnames.sublist hkeys) n
    rw [List.count, List.countP_eq_length_filter] at hcount
    exact decide_eq_true hcount
  refine ⟨entries, ?_, fun _ => rfl⟩
  simp only [entries?, hknown, hsingle, Bool.and_self, if_true]

theorem required_of_lookup (hlossless : Lossless encode decode) {x : α}
    (h : entries.lookup name = some (encode x)) : required entries name decode = some x := by
  rw [required, h, Option.bind_some, hlossless]

theorem defaulted_of_lookup (hlossless : Lossless encode decode) {x default : α}
    (h : entries.lookup name = some (encode x)) :
    defaulted entries name default decode = some x := by
  rw [defaulted, h]
  exact hlossless x

theorem optional_of_lookup (hlossless : Lossless encode decode) (hpresent : Present encode)
    {value : Option α} (h : entries.lookup name = value.map encode) :
    optional entries name decode = some value := by
  cases value with
  | none =>
    rw [Option.map_none] at h
    rw [optional, h]
  | some x =>
    rw [Option.map_some] at h
    simp only [optional, h, hpresent x, hlossless x, Option.map_some]

/-- What an optional entry adds to the keys. -/
theorem keys_optionalEntry (value : Option α) :
    ((optionalEntry name encode value).map (·.1)).Sublist [name] := by
  cases value with
  | none => exact List.nil_sublist _
  | some _ => exact .refl _

/-- What an optional entry adds to the look-ups. -/
@[simp] theorem lookup_optionalEntry (key : String) (value : Option α) :
    (optionalEntry name encode value).lookup key =
      if key == name then value.map encode else none := by
  cases value <;> simp [optionalEntry, List.lookup_cons]
  split <;> simp_all

end Mappings

end Yaml

open Yaml

theorem PhaseToggles.lossless_yaml : Lossless PhaseToggles.toYaml PhaseToggles.ofYaml? := by
  intro t
  obtain ⟨e, he, hlookup⟩ : ∃ e, t.toYaml.entries? names = some e ∧ _ :=
    entries?_mapping names (by decide) (.refl _)
  have huser : defaulted e "user_subsumption" true Yaml.bool? = some t.user :=
    defaulted_of_lookup lossless_bool (hlookup _)
  have hcoverage : defaulted e "coverage_subsumption" true Yaml.bool? = some t.coverage :=
    defaulted_of_lookup lossless_bool (hlookup _)
  have hdominance : defaulted e "dominance_subsumption" true Yaml.bool? = some t.dominance :=
    defaulted_of_lookup lossless_bool (hlookup _)
  simp [ofYaml?, he, huser, hcoverage, hdominance]

theorem TraceSettings.lossless_yaml : Lossless TraceSettings.toYaml TraceSettings.ofYaml? := by
  intro t
  obtain ⟨e, he, hlookup⟩ : ∃ e, t.toYaml.entries? names = some e ∧ _ :=
    entries?_mapping names (by decide) (by
      rw [List.map_append]
      exact (keys_optionalEntry t.directory).append (.refl _))
  have hdirectory : optional e "directory" text? = some t.directory := by
    refine optional_of_lookup lossless_text present_text ?_
    simp [hlookup, List.lookup_append, List.lookup_cons]
  have hsanitizer : defaulted e "sanitizer_extension" "scov" text? =
      some t.sanitizerExtension := by
    refine defaulted_of_lookup lossless_text ?_
    simp [hlookup, List.lookup_append]
  have huser : defaulted e "user_extension" "ucov" text? = some t.userExtension := by
    refine defaulted_of_lookup lossless_text ?_
    simp [hlookup, List.lookup_append, List.lookup_cons]
  simp [ofYaml?, he, hdirectory, hsanitizer, huser]

/-- A check's number is written for what it is, and read as a number. -/
theorem InspectTarget.lossless_yaml : Lossless InspectTarget.toYaml InspectTarget.ofYaml? := by
  intro t
  obtain ⟨e, he, hlookup⟩ : ∃ e, t.toYaml.entries? names = some e ∧ _ :=
    entries?_mapping names (by decide) (.cons_cons _ (keys_optionalEntry t.unit))
  have hcheck : required e "check_id" Yaml.word? = some t.check.number :=
    required_of_lookup lossless_word (hlookup _)
  have hunit : optional e "unit" text? = some t.unit := by
    refine optional_of_lookup lossless_text present_text ?_
    simp [hlookup, List.lookup_cons]
  simp [ofYaml?, he, hcheck, hunit]

/-- The name of a format has no tag, so it is read for what it is. -/
theorem ReportFormat.lossless_yaml : Lossless (fun f : ReportFormat => ofText f.name)
    fun node => node.variant?.bind fun name => ReportFormat.names.lookup name := by
  intro f
  cases f <;> rfl

theorem ReportSettings.lossless_yaml : Lossless ReportSettings.toYaml ReportSettings.ofYaml? := by
  intro r
  obtain ⟨e, he, hlookup⟩ : ∃ e, r.toYaml.entries? names = some e ∧ _ :=
    entries?_mapping names (by decide) (by
      rw [List.map_append, List.map_append]
      exact ((keys_optionalEntry r.path).append (.refl _)).append (keys_optionalEntry r.inspect))
  have hpath : optional e "path" text? = some r.path := by
    refine optional_of_lookup lossless_text present_text ?_
    simp [hlookup, List.lookup_append, List.lookup_cons]
  have hformat : (defaulted e "format" .text fun node =>
      node.variant?.bind fun name => ReportFormat.names.lookup name) = some r.format := by
    refine defaulted_of_lookup ReportFormat.lossless_yaml ?_
    simp [hlookup, List.lookup_append]
  have hinspect : optional e "inspect" InspectTarget.ofYaml? = some r.inspect := by
    refine optional_of_lookup InspectTarget.lossless_yaml present_mapping ?_
    simp [hlookup, List.lookup_append, List.lookup_cons]
  simp [ofYaml?, he, hpath, hformat, hinspect]

theorem Limits.lossless_yaml : Lossless Limits.toYaml Limits.ofYaml? := by
  intro l
  obtain ⟨e, he, hlookup⟩ : ∃ e, l.toYaml.entries? names = some e ∧ _ :=
    entries?_mapping names (by decide) (.refl _)
  have hdepth : defaulted e "max_match_depth" 32 Yaml.word? = some l.maxMatchDepth :=
    defaulted_of_lookup lossless_word (hlookup _)
  have hstem : defaulted e "induction_prefix" "indvars" text? = some l.inductionStem :=
    defaulted_of_lookup lossless_text (hlookup _)
  simp [ofYaml?, he, hdepth, hstem]

namespace Settings

/-- Whatever a document says or leaves out, it says the same when it is read back. -/
theorem Document.lossless_yaml : Lossless Document.toYaml Document.ofYaml? := by
  intro d
  obtain ⟨e, he, hlookup⟩ : ∃ e, d.toYaml.entries? ("version" :: names) = some e ∧ _ :=
    entries?_mapping ("version" :: names) (by decide) (by
      simp only [List.map_append]
      exact (((((keys_optionalEntry d.version).append (keys_optionalEntry d.level)).append
        (keys_optionalEntry d.phases)).append (keys_optionalEntry d.traces)).append
        (keys_optionalEntry d.report)).append (keys_optionalEntry d.limits))
  have hversion : optional e "version" word32? = some d.version := by
    refine optional_of_lookup lossless_word32 (present_nat _) ?_
    simp [hlookup, List.lookup_append]
  have hlevel : optional e "level" text? = some d.level := by
    refine optional_of_lookup lossless_text present_text ?_
    simp [hlookup, List.lookup_append]
  have hphases : optional e "phases" PhaseToggles.ofYaml? = some d.phases := by
    refine optional_of_lookup PhaseToggles.lossless_yaml present_mapping ?_
    simp [hlookup, List.lookup_append]
  have htraces : optional e "traces" TraceSettings.ofYaml? = some d.traces := by
    refine optional_of_lookup TraceSettings.lossless_yaml present_mapping ?_
    simp [hlookup, List.lookup_append]
  have hreport : optional e "report" ReportSettings.ofYaml? = some d.report := by
    refine optional_of_lookup ReportSettings.lossless_yaml present_mapping ?_
    simp [hlookup, List.lookup_append]
  have hlimits : optional e "limits" Limits.ofYaml? = some d.limits := by
    refine optional_of_lookup Limits.lossless_yaml present_mapping ?_
    simp [hlookup, List.lookup_append]
  simp [ofYaml?, he, hversion, hlevel, hphases, htraces, hreport, hlimits]

end Settings

private theorem toLower_eq {s t : String} (h : s.toList.map Char.toLower = t.toList) :
    s.toLower = t :=
  String.toList_inj.mp (String.toList_map.trans h)

/-- The name under which a level is exported is the name it is asked for by. -/
theorem Level.ofName?_name (l : Level) : Level.ofName? l.name = some l := by
  cases l with
  | l0 => rw [ofName?, name, toLower_eq (t := "l0") rfl]; rfl
  | l1 => rw [ofName?, name, toLower_eq (t := "l1") rfl]; rfl
  | l2 => rw [ofName?, name, toLower_eq (t := "l2") rfl]; rfl
  | l3 => rw [ofName?, name, toLower_eq (t := "l3") rfl]; rfl

namespace Settings

/-- A document that was made of settings is refused exactly if they make no sense, and for the same
fault; otherwise it gives them back. -/
theorem ofDocument_toDocument (s : Settings) :
    ofDocument s.toDocument = s.validate.map fun _ => s := by
  have hlevel : s.toDocument.levelOf = .ok s.level := by
    rw [Document.levelOf, toDocument]
    simp only [Level.ofName?_name]
  rw [ofDocument, hlevel]
  cases h : s.validate with
  | error fault =>
    change (s.validate >>= fun _ => pure s) = _
    rw [h]
    rfl
  | ok =>
    change (s.validate >>= fun _ => pure s) = _
    rw [h]
    rfl

/-- The text of a document is read as settings if it is read as the document. -/
theorem parse_of_toYaml {s : Settings} (h : s.validate = .ok ()) {text : String}
    (htext : Yaml.parse? text = some s.toDocument.toYaml) : parse text = .ok s := by
  have hdocument : (Yaml.parse? text).bind Document.ofYaml? = some s.toDocument := by
    rw [htext, Option.bind_some, Document.lossless_yaml]
  rw [parse, hdocument]
  change ofDocument s.toDocument = .ok s
  rw [ofDocument_toDocument, h]
  rfl

end Settings

end GuardElision
