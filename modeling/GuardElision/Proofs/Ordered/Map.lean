import GuardElision.Ordered.Map
import Mathlib.Data.List.Basic

/-!
# What a sorted map lists

The entries of a sorted map are what it finds, each once and by ascending key. So a map is
determined by what it finds, it is the map of its entries in any order, and a map that keeps all
that another one holds lists the entries of the other one between its own: the difference of the
sizes is the number of keys that are new.
-/

namespace GuardElision

/-- Among entries that ascend, the one under a key is found. -/
private theorem find?_of_mem_ascending {κ α : Type} [Ranked κ] {entries : List (κ × α)}
    (h : Ascending entries) {e : κ × α} (he : e ∈ entries) :
    (entries.find? fun x => rank x.1 == rank e.1) = some e := by
  induction entries with
  | nil => cases he
  | cons a rest ih =>
    have ⟨ha, hrest⟩ := List.pairwise_cons.mp h
    rcases List.mem_cons.mp he with rfl | hmem
    · simp
    · have hne : rank a.1 ≠ rank e.1 := Nat.ne_of_lt (ha e hmem)
      rw [List.find?_cons_of_neg (by simpa using hne)]
      exact ih hrest hmem

/-- A sorted map lists what it finds. -/
theorem SortedMap.mem_entries_iff {κ α : Type} [Ranked κ] (m : SortedMap κ α) (key : κ)
    (value : α) : (key, value) ∈ m.entries ↔ m.find? key = some value := by
  constructor
  · intro h
    rw [find?, find?_of_mem_ascending m.ascending h]
    rfl
  · intro h
    obtain ⟨⟨other, _⟩, hfind, rfl⟩ := Option.map_eq_some_iff.mp h
    have hrank : rank other = rank key := by simpa using List.find?_some hfind
    obtain rfl := rank_inj.mp hrank
    exact List.mem_of_find?_eq_some hfind

/-- Lists that ascend by some number are determined by what is in them. -/
theorem eq_of_pairwise_lt {α : Type} {number : α → Nat} {a b : List α}
    (ha : a.Pairwise fun x y => number x < number y)
    (hb : b.Pairwise fun x y => number x < number y) (h : ∀ x, x ∈ a ↔ x ∈ b) : a = b := by
  have hnodup : ∀ {l : List α}, l.Pairwise (fun x y => number x < number y) → l.Nodup := by
    intro l hl
    refine hl.imp fun hlt heq => ?_
    rw [heq] at hlt
    exact Nat.lt_irrefl _ hlt
  have hperm : a.Perm b := (List.perm_ext_iff_of_nodup (hnodup ha) (hnodup hb)).mpr h
  exact hperm.eq_of_pairwise (fun _ _ _ _ hlt hlt' => absurd hlt' (Nat.lt_asymm hlt)) ha hb

/-- Entries that ascend are determined by which ones they are. -/
theorem Ascending.eq_of_mem_iff {κ α : Type} [Ranked κ] {a b : List (κ × α)} (ha : Ascending a)
    (hb : Ascending b) (h : ∀ e, e ∈ a ↔ e ∈ b) : a = b :=
  eq_of_pairwise_lt ha hb h

/-- The map of some entries finds each of them, if no key comes twice. -/
theorem SortedMap.find?_ofList {κ α : Type} [Ranked κ] [DecidableEq κ] {entries : List (κ × α)}
    (hnodup : (entries.map (·.1)).Nodup) (key : κ) (value : α) :
    (ofList entries).find? key = some value ↔ (key, value) ∈ entries := by
  -- Before the last entry is written, what was found earlier is still there.
  have hwritten : ∀ (m : SortedMap κ α),
      (entries.foldl (fun m e => m.insert e.1 e.2) m).find? key = some value ↔
        (key, value) ∈ entries ∨ (key ∉ entries.map (·.1) ∧ m.find? key = some value) := by
    induction entries with
    | nil => simp
    | cons e rest ih =>
      obtain ⟨hfresh, hnodup⟩ := List.nodup_cons.mp hnodup
      intro m
      rw [List.foldl_cons, ih hnodup, find?_insert]
      by_cases hkey : key = e.1
      · subst hkey
        have hnot : (e.1, value) ∉ rest := fun hmem =>
          hfresh (List.mem_map.mpr ⟨_, hmem, rfl⟩)
        have he : (e.1, value) = e ↔ e.2 = value := by
          rw [Prod.ext_iff]
          simp [eq_comm]
        simp [hnot, he, hfresh]
      · have he : (key, value) ≠ e := fun heq => hkey (congrArg Prod.fst heq)
        simp [hkey, he]
  simpa [ofList] using hwritten empty

/-- A sorted map is the map of its entries, in whatever order they come. -/
theorem SortedMap.ofList_of_perm {κ α : Type} [Ranked κ] [DecidableEq κ] {entries : List (κ × α)}
    {m : SortedMap κ α} (h : entries.Perm m.entries) : ofList entries = m := by
  have hnodup : (m.entries.map (·.1)).Nodup := by
    refine List.pairwise_map.mpr (m.ascending.imp fun hlt heq => ?_)
    rw [heq] at hlt
    exact Nat.lt_irrefl _ hlt
  have hnodup' := (h.map (·.1)).nodup_iff.mpr hnodup
  have hentries : (ofList entries).entries = m.entries := by
    refine (ofList entries).ascending.eq_of_mem_iff m.ascending ?_
    rintro ⟨key, value⟩
    rw [mem_entries_iff, find?_ofList hnodup', h.mem_iff]
  cases m
  cases hlist : ofList entries
  rw [hlist] at hentries
  cases hentries
  rfl

/-- A map that keeps what another one holds is larger by the keys that the other one has not. -/
theorem SortedMap.size_sub_size {κ α : Type} [Ranked κ] {a b : SortedMap κ α}
    (h : ∀ key value, a.find? key = some value → b.find? key = some value) :
    b.size - a.size = (b.keys.filter fun key => !a.contains key).length := by
  have hold : b.entries.filter (fun e => a.contains e.1) = a.entries := by
    refine Ascending.eq_of_mem_iff (b.ascending.sublist List.filter_sublist) a.ascending ?_
    rintro ⟨key, value⟩
    rw [List.mem_filter, mem_entries_iff, mem_entries_iff, contains, Option.isSome_iff_exists]
    constructor
    · rintro ⟨hb, other, ha⟩
      rw [ha, ← hb, h key other ha]
    · intro ha
      exact ⟨h key value ha, value, ha⟩
  have hsplit := b.entries.length_eq_length_filter_add fun e => a.contains e.1
  rw [hold] at hsplit
  rw [keys, List.filter_map, List.length_map, size, size, hsplit, Nat.add_sub_cancel_left]
  rfl

end GuardElision
