import GuardElision.Run.Inventory

/-!
# The checks that belong to a program

Taking stock accepts the checks of a classifier exactly when each of them has a two-way branch
in the program and no two of them have one number. From then on a number stands for one
check, and the numbers of user checks are never those of sanitizer checks. Nothing keeps two
checks from having one branch.
-/

namespace GuardElision.Inventory

/-- The checks are those of a classifier, they all have a two-way branch in the program, and no
two of them have one number. -/
structure Belongs (p : Program) (k : Classifier) (checks : Inventory) : Prop where
  sanitizer_eq : checks.sanitizer = k.sanitizer
  user_eq : checks.user = k.user
  cones_eq : checks.cones = k.sanitizer.map (k.coneOf p)
  branches : ∀ c ∈ k.sanitizer ++ k.user, ∃ n, p.branchOf c = .ok n
  distinct : ((k.sanitizer ++ k.user).map Check.id).Nodup

private theorem fault?_eq_none_iff (p : Program) (seen : List CheckId) (c : Check) :
    fault? p seen c = none ↔ (∃ n, p.branchOf c = .ok n) ∧ c.id ∉ seen := by
  unfold fault?
  cases p.branchOf c <;> simp

private theorem firstFault?_eq_none_iff (p : Program) (seen : List CheckId)
    (checks : List Check) : firstFault? p seen checks = none ↔
      (∀ c ∈ checks, ∃ n, p.branchOf c = .ok n) ∧ (checks.map Check.id).Nodup ∧
        ∀ c ∈ checks, c.id ∉ seen := by
  induction checks generalizing seen with
  | nil => simp [firstFault?]
  | cons c rest ih =>
    have hstep : firstFault? p seen (c :: rest) = none ↔
        fault? p seen c = none ∧ firstFault? p (c.id :: seen) rest = none := by
      rw [firstFault?]
      cases fault? p seen c <;> simp
    rw [hstep, fault?_eq_none_iff, ih, List.forall_mem_cons, List.forall_mem_cons]
    simp only [List.map_cons, List.nodup_cons, List.mem_cons, not_or, List.mem_map, not_exists,
      not_and]
    constructor
    · rintro ⟨⟨hbranch, hnew⟩, hrest, hnodup, hseen⟩
      exact ⟨⟨hbranch, hrest⟩, ⟨fun x hx => (hseen x hx).1, hnodup⟩, hnew,
        fun x hx => (hseen x hx).2⟩
    · rintro ⟨⟨hbranch, hrest⟩, ⟨hne, hnodup⟩, hnew, hseen⟩
      exact ⟨⟨hbranch, hnew⟩, hrest, hnodup, fun x hx => ⟨hne x hx, hseen x hx⟩⟩

/-- Taking stock succeeds exactly for checks that belong to the program. -/
theorem take_eq_ok_iff (p : Program) (k : Classifier) (checks : Inventory) :
    take p k = .ok checks ↔ checks.Belongs p k := by
  have hfault := firstFault?_eq_none_iff p [] (k.sanitizer ++ k.user)
  unfold take
  constructor
  · intro h
    split at h
    · cases h
    · next hnone =>
      obtain ⟨hbranches, hdistinct, _⟩ := hfault.mp hnone
      cases h
      exact ⟨rfl, rfl, rfl, hbranches, hdistinct⟩
  · rintro ⟨hsanitizer, huser, hcones, hbranches, hdistinct⟩
    obtain ⟨sanitizer, user, cones⟩ := checks
    subst hsanitizer huser hcones
    rw [hfault.mpr ⟨hbranches, hdistinct, fun _ _ => List.not_mem_nil⟩]

/-- No two checks have one number. -/
def Distinct (checks : Inventory) : Prop :=
  ((checks.sanitizer ++ checks.user).map Check.id).Nodup

instance (checks : Inventory) : Decidable checks.Distinct :=
  inferInstanceAs (Decidable (List.Nodup _))

private theorem position_eq_of_nodup {cs : List Check} (hcs : (cs.map Check.id).Nodup) {i j : Nat}
    {c d : Check} (hc : cs[i]? = some c) (hd : cs[j]? = some d) (hid : c.id = d.id) : i = j := by
  have hi : (cs.map Check.id)[i]? = some c.id := by simp [hc]
  have hj : (cs.map Check.id)[j]? = some c.id := by simp [hd, hid]
  have hlt := (List.getElem?_eq_some_iff.mp hi).1
  exact (List.getElem?_inj hlt hcs).mp (hi.trans hj.symm)

namespace Distinct

variable {checks : Inventory}

theorem sanitizer_nodup (h : checks.Distinct) : (checks.sanitizer.map Check.id).Nodup :=
  h.sublist ((List.sublist_append_left _ _).map Check.id)

/-- Two positions among the sanitizer checks have different numbers. -/
theorem position_eq (h : checks.Distinct) {i j : Nat} {c d : Check}
    (hc : checks.sanitizer[i]? = some c) (hd : checks.sanitizer[j]? = some d)
    (hid : c.id = d.id) : i = j :=
  position_eq_of_nodup h.sanitizer_nodup hc hd hid

/-- A number determines the user check. -/
theorem user_eq (h : checks.Distinct) {u v : Check} (hu : u ∈ checks.user)
    (hv : v ∈ checks.user) (hid : u.id = v.id) : u = v := by
  obtain ⟨i, hi⟩ := List.mem_iff_getElem?.mp hu
  obtain ⟨j, hj⟩ := List.mem_iff_getElem?.mp hv
  obtain rfl := position_eq_of_nodup (h.sublist ((List.sublist_append_right _ _).map Check.id))
    hi hj hid
  exact Option.some.inj (hi.symm.trans hj)

/-- No user check has the number of a sanitizer check. -/
theorem user_id_ne (h : checks.Distinct) {c u : Check} (hc : c ∈ checks.sanitizer)
    (hu : u ∈ checks.user) : u.id ≠ c.id := by
  intro hid
  have hnodup : (checks.sanitizer.map Check.id ++ checks.user.map Check.id).Nodup :=
    List.map_append ▸ h
  exact (List.nodup_append.mp hnodup).2.2 c.id (List.mem_map_of_mem hc) u.id
    (List.mem_map_of_mem hu) hid.symm

end Distinct

namespace Belongs

variable {p : Program} {k : Classifier} {checks : Inventory}

theorem checks_distinct (h : checks.Belongs p k) : checks.Distinct := by
  rw [Distinct, h.sanitizer_eq, h.user_eq]
  exact h.distinct

/-- Two positions among the sanitizer checks have different numbers. -/
theorem position_eq (h : checks.Belongs p k) {i j : Nat} {c d : Check}
    (hc : checks.sanitizer[i]? = some c) (hd : checks.sanitizer[j]? = some d)
    (hid : c.id = d.id) : i = j :=
  h.checks_distinct.position_eq hc hd hid

/-- A number determines the sanitizer check. -/
theorem eq_of_id_eq (h : checks.Belongs p k) {c d : Check} (hc : c ∈ checks.sanitizer)
    (hd : d ∈ checks.sanitizer) (hid : c.id = d.id) : c = d := by
  obtain ⟨i, hi⟩ := List.mem_iff_getElem?.mp hc
  obtain ⟨j, hj⟩ := List.mem_iff_getElem?.mp hd
  obtain rfl := h.position_eq hi hj hid
  exact Option.some.inj (hi.symm.trans hj)

/-- No user check has the number of a sanitizer check. -/
theorem user_id_ne (h : checks.Belongs p k) {c u : Check} (hc : c ∈ checks.sanitizer)
    (hu : u ∈ checks.user) : u.id ≠ c.id :=
  h.checks_distinct.user_id_ne hc hu

end Belongs

end GuardElision.Inventory
