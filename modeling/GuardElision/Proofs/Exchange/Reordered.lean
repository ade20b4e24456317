import GuardElision.Exchange.Program
import Mathlib.Data.List.Forall2
import Mathlib.Data.List.Nodup

/-!
# JSON values up to the order of members

The members of an object have no order that a reader may rely on: a value that is kept in memory
lists them by name, a text as they were written. What is read back is therefore not the value that
was written but one `Reordered` from it, and an encoding is `Lossless` if its decoder returns the
same from all of these.

A record is read field by field. All that a field sees of the object is the member with its name,
so what is needed of two objects whose members correspond is that they agree on every look-up
(`Json.Agree`); from there on the order is out of sight.
-/

namespace GuardElision.Json

/-- Members in any order, each related to the one of its name on the other side. -/
inductive Matched (R : Json → Json → Prop) : Fields → Fields → Prop where
  | nil : Matched R [] []
  | cons {name : String} {v w : Json} {a b c : Fields} :
    R v w → Matched R a (b ++ c) → Matched R ((name, v) :: a) (b ++ (name, w) :: c)

/-- The same value with the members of its objects in any order, at every depth. -/
inductive Reordered : Json → Json → Prop where
  | null : Reordered .null .null
  | bool (b : Bool) : Reordered (.bool b) (.bool b)
  | number (n : Number) : Reordered (.number n) (.number n)
  | string (s : String) : Reordered (.string s) (.string s)
  | array {a b : List Json} : List.Forall₂ Reordered a b → Reordered (.array a) (.array b)
  | object {a b : Fields} : Matched Reordered a b → Reordered (.object a) (.object b)
  | flawed : Reordered .flawed .flawed

mutual

/-- A value is itself in another order. -/
theorem Reordered.refl : ∀ j : Json, j.Reordered j
  | .null => .null
  | .bool b => .bool b
  | .number n => .number n
  | .string s => .string s
  | .array items => .array (refl_items items)
  | .object members => .object (refl_members members)
  | .flawed => .flawed

/-- The items of an array are themselves in another order. -/
theorem Reordered.refl_items : ∀ items : List Json, List.Forall₂ Reordered items items
  | [] => .nil
  | item :: rest => .cons (refl item) (refl_items rest)

/-- The members of an object are themselves in another order. -/
theorem Reordered.refl_members : ∀ members : Fields, Matched Reordered members members
  | [] => .nil
  | (_, value) :: rest => .cons (b := []) (refl value) (refl_members rest)

end

/-- A decoder reads back what was encoded, in whatever order the members of its objects come. -/
def Lossless {α : Type} (encode : α → Json) (decode : Json → Option α) : Prop :=
  ∀ (x : α) (j : Json), (encode x).Reordered j → decode j = some x

section Matched

variable {R : Json → Json → Prop} {a b : Fields}

/-- Corresponding members have the same names. -/
theorem Matched.names_perm (h : Matched R a b) : (b.map (·.1)).Perm (a.map (·.1)) := by
  induction h with
  | nil => exact .refl []
  | cons _ _ ih =>
    rw [List.map_append, List.map_cons]
    rw [List.map_append] at ih
    exact List.perm_middle.trans (ih.cons _)

/-- Members that correspond still do so among those whose names pass a test. -/
theorem Matched.filter (h : Matched R a b) (keep : String → Bool) :
    Matched R (a.filter fun m => keep m.1) (b.filter fun m => keep m.1) := by
  induction h with
  | nil => exact .nil
  | @cons name v w a b c hvw _ ih =>
    rw [List.filter_append] at ih ⊢
    by_cases hk : keep name
    · simp only [List.filter_cons, hk, if_true]
      exact .cons hvw ih
    · simp only [List.filter_cons, hk, Bool.false_eq_true, if_false]
      exact ih

/-- What looking up a name gives on both sides is related, or nothing on both. -/
def Agree (R : Json → Json → Prop) (a b : Fields) : Prop :=
  ∀ name, Option.Rel R (a.lookup name) (b.lookup name)

private theorem lookup_eq_none_of_notMem {name : String} {fields : Fields}
    (h : name ∉ fields.map (·.1)) : fields.lookup name = none := by
  rw [List.lookup_eq_none_iff]
  intro m hm
  have hne : name ≠ m.1 := fun heq => h (heq ▸ List.mem_map_of_mem hm)
  simpa using hne

/-- Corresponding members agree on every look-up if no name comes twice. -/
theorem Matched.agree (h : Matched R a b) (hnodup : (a.map (·.1)).Nodup) : Agree R a b := by
  induction h with
  | nil => exact fun _ => .none
  | @cons name v w a b c hvw hrest ih =>
    obtain ⟨hfresh, hnodup⟩ := List.nodup_cons.mp hnodup
    intro other
    by_cases ho : other = name
    · subst ho
      -- No member in front of this one has its name, for then one of `a` had it.
      have hfresh' : other ∉ (b ++ c).map (·.1) := fun hmem =>
        hfresh (hrest.names_perm.mem_iff.mp hmem)
      have hfront : b.lookup other = none := lookup_eq_none_of_notMem fun hmem =>
        hfresh' (by rw [List.map_append]; exact List.mem_append_left _ hmem)
      rw [List.lookup_append, hfront, Option.none_or, List.lookup_cons_self, List.lookup_cons_self]
      exact .some hvw
    · have hne : (other == name) = false := by simpa using ho
      have := ih hnodup other
      rw [List.lookup_append] at this ⊢
      rwa [List.lookup_cons, hne, List.lookup_cons, hne]

/-- A member that is found on one side is found on the other. -/
theorem Agree.present (h : Agree R a b) {name : String} {v : Json}
    (hfield : a.lookup name = some v) : ∃ w, b.lookup name = some w ∧ R v w := by
  have hrel := h name
  rw [hfield] at hrel
  cases hb : b.lookup name with
  | none => rw [hb] at hrel; cases hrel
  | some w =>
    rw [hb] at hrel
    cases hrel with
    | some hrel => exact ⟨w, rfl, hrel⟩

/-- A member that is missing on one side is missing on the other. -/
theorem Agree.absent (h : Agree R a b) {name : String} (hfield : a.lookup name = none) :
    b.lookup name = none := by
  have hrel := h name
  rw [hfield] at hrel
  cases hb : b.lookup name with
  | none => rfl
  | some w => rw [hb] at hrel; cases hrel

/-- If no name comes twice, no name comes twice in another order. -/
theorem Matched.single (h : Matched R a b) (hnodup : (a.map (·.1)).Nodup) (name : String) :
    Fields.single b name = true := by
  have hcount := List.nodup_iff_count_le_one.mp (h.names_perm.nodup_iff.mpr hnodup) name
  rw [List.count, List.countP_map, List.countP_eq_length_filter] at hcount
  exact decide_eq_true hcount

end Matched

section Records

variable {a f : Fields} {j : Json}

/-- An object in another order is an object whose members correspond. -/
theorem Reordered.members (h : (Json.object a).Reordered j) :
    ∃ f, j = .object f ∧ Matched Reordered a f := by
  cases h with
  | object hmatched => exact ⟨_, rfl, hmatched⟩

/-- The fields of a record are read from its object in any order, if the object lists some of them
in the order in which they are declared. -/
theorem Reordered.fields? (h : (Json.object a).Reordered j) (names : List String)
    (hnames : names.Nodup) (hkeys : (a.map (·.1)).Sublist names) :
    ∃ f, j.fields? names = some f ∧ Agree Reordered a f := by
  have hnodup : (a.map (·.1)).Nodup := hnames.sublist hkeys
  obtain ⟨f, rfl, hmatched⟩ := h.members
  have hsingle : names.all (Fields.single f) = true :=
    List.all_eq_true.mpr fun name _ => hmatched.single hnodup name
  exact ⟨f, if_pos hsingle, hmatched.agree hnodup⟩

/-- So are the fields of a record that refuses others. -/
theorem Reordered.onlyFields? (h : (Json.object a).Reordered j) (names : List String)
    (hnames : names.Nodup) (hkeys : (a.map (·.1)).Sublist names) :
    ∃ f, j.onlyFields? names = some f ∧ Agree Reordered a f := by
  obtain ⟨f, hf, hagree⟩ := h.fields? names hnames hkeys
  have hknown : (f.all fun m => names.contains m.1) = true := by
    obtain ⟨members, rfl, hmatched⟩ := h.members
    obtain rfl : members = f := by
      rw [Json.fields?] at hf
      split at hf
      · exact Option.some.inj hf
      · cases hf
    rw [List.all_eq_true]
    intro m hm
    have hkey : m.1 ∈ a.map (·.1) := hmatched.names_perm.mem_iff.mp (List.mem_map_of_mem hm)
    exact List.contains_iff_mem.mpr (hkeys.subset hkey)
  refine ⟨f, ?_, hagree⟩
  rw [Json.onlyFields?, hf, Option.bind_eq_bind, Option.bind_some, if_pos hknown]

variable {α : Type} {encode : α → Json} {decode : Json → Option α} {name : String} {x : α}

/-- What a required field holds. -/
theorem Agree.required (h : Agree Reordered a f) (hlossless : Lossless encode decode)
    (hfield : a.lookup name = some (encode x)) : f.required name decode = some x := by
  obtain ⟨w, hw, hread⟩ := h.present hfield
  rw [Fields.required, hw, Option.bind_some, hlossless x w hread]

/-- What a field with a default holds. -/
theorem Agree.defaulted (h : Agree Reordered a f) (hlossless : Lossless encode decode)
    {default : α} (hfield : a.lookup name = some (encode x)) :
    f.defaulted name default decode = some x := by
  obtain ⟨w, hw, hread⟩ := h.present hfield
  rw [Fields.defaulted, hw]
  exact hlossless x w hread

/-- A field that was left out has its default. -/
theorem Agree.defaulted_of_absent (h : Agree Reordered a f) {default : α}
    (hfield : a.lookup name = none) : f.defaulted name default decode = some default := by
  rw [Fields.defaulted, h.absent hfield]

/-- An optional field that was left out holds nothing. -/
theorem Agree.optional_of_absent (h : Agree Reordered a f) (hfield : a.lookup name = none) :
    f.optional name decode = some none := by
  rw [Fields.optional, h.absent hfield]

/-- What an optional field holds, if no value is written as `null`. -/
theorem Agree.optional (h : Agree Reordered a f) (hlossless : Lossless encode decode)
    (hnull : decode .null = none) {value : Option α}
    (hfield : a.lookup name = value.map encode) : f.optional name decode = some value := by
  cases value with
  | none => exact h.optional_of_absent hfield
  | some x =>
    obtain ⟨w, hw, hread⟩ := h.present hfield
    have hdecode := hlossless x w hread
    rw [Fields.optional, hw]
    cases w with
    | null => rw [hnull] at hdecode; cases hdecode
    | _ => exact congrArg (Option.map some) hdecode

/-- What an optional member adds to the names. -/
theorem keys_optionalField (value : Option α) :
    ((optionalField name encode value).map (·.1)).Sublist [name] := by
  cases value with
  | none => exact List.nil_sublist _
  | some _ => exact .refl _

/-- What an optional member adds to the look-ups. -/
@[simp] theorem lookup_optionalField (key : String) (value : Option α) :
    (optionalField name encode value).lookup key =
      if key == name then value.map encode else none := by
  cases value <;> simp [optionalField, List.lookup_cons]
  split <;> simp_all

end Records

section Values

theorem lossless_word : Lossless word word? := by
  rintro n j ⟨⟩
  rfl

theorem lossless_bool : Lossless Json.bool bool? := by
  rintro b j ⟨⟩
  rfl

theorem lossless_string : Lossless Json.string string? := by
  rintro s j ⟨⟩
  rfl

/-- A 32-bit number survives as an integer of one word. -/
theorem lossless_word32 : Lossless (fun n : UInt32 => word n.toUInt64) word32? := by
  rintro n j ⟨⟩
  simp [word32?, word?, n.toNat_lt_size]

/-- An encoding of a type that wraps another one. -/
theorem Lossless.wrap {α β : Type} {encode : α → Json} {decode : Json → Option α}
    (h : Lossless encode decode) {wrap : α → β} {unwrap : β → α} (hwrap : ∀ y, wrap (unwrap y) = y) :
    Lossless (fun y => encode (unwrap y)) (fun j => (decode j).map wrap) := by
  intro y j hj
  change (decode j).map wrap = some y
  rw [h (unwrap y) j hj, Option.map_some, hwrap]

/-- A list is read back if its items are. -/
theorem Lossless.list {α : Type} {encode : α → Json} {decode : Json → Option α}
    (h : Lossless encode decode) : Lossless (ofList encode) (list? decode) := by
  rintro items j ⟨⟩
  rename_i read hread
  rw [list?]
  induction items generalizing read with
  | nil => cases hread; rfl
  | cons item rest ih =>
    obtain - | ⟨hitem, hrest⟩ := hread
    rw [List.mapM_cons, h item _ hitem, ih hrest]
    rfl

/-- A variant without data is read back if the list of names has it under its name. -/
theorem lossless_choice {α : Type} {choices : List (String × α)} {encode : α → Json}
    (h : ∀ x, ∃ name, encode x = .string name ∧ choices.lookup name = some x) :
    Lossless encode (choice? choices) := by
  intro x j hj
  obtain ⟨name, hname, hlookup⟩ := h x
  rw [hname] at hj
  cases hj
  simpa [choice?, variant?] using hlookup

/-- A variant with data is an object with one member in any order. -/
theorem Reordered.variant? {name : String} {data j : Json}
    (h : (Json.object [(name, data)]).Reordered j) :
    ∃ read, j.variant? = some (name, some read) ∧ data.Reordered read := by
  obtain - | - | - | - | - | hmatched := h
  generalize hb : ([(name, data)] : Fields) = b at hmatched
  cases hmatched with
  | nil => cases hb
  | @cons _ _ w a b c hdata hrest =>
    cases hb
    generalize hbc : b ++ c = rest at hrest
    cases hrest
    obtain ⟨rfl, rfl⟩ := List.append_eq_nil_iff.mp hbc
    exact ⟨w, rfl, hdata⟩

end Values

end GuardElision.Json
