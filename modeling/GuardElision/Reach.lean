/-!
# Reachability in a finite domain

`Reach.gather` collects what can be reached from given seeds by steps that never
leave a finite domain. Each round takes the first pending element that is still
unvisited, so the length of the domain bounds the number of rounds and no edge is
followed twice. `mem_gather_iff` is the specification: membership is exactly the
existence of a path inside the domain.
-/

namespace GuardElision.Reach

variable {α : Type}

/-- A path inside `domain` that starts at a seed and ends at the given element. -/
inductive Within (next : α → List α) (domain seeds : List α) : α → Prop where
  /-- A seed of the domain is reached without a step. -/
  | seed {x : α} : x ∈ domain → x ∈ seeds → Within next domain seeds x
  /-- One step from something reached to an element of the domain. -/
  | step {x y : α} : Within next domain seeds x → y ∈ domain → y ∈ next x →
      Within next domain seeds y

/-- What is reached lies in the domain. -/
theorem Within.mem_domain {next : α → List α} {domain seeds : List α} {x : α}
    (h : Within next domain seeds x) : x ∈ domain := by
  cases h with
  | seed hd _ => exact hd
  | step _ hd _ => exact hd

/-- What is reached from the successors of a visited element and from the other seeds, inside a
smaller domain, was reached before the visit. -/
theorem Within.of_visited {next : α → List α} {domain left seeds rest : List α} {x y : α}
    (hx : x ∈ domain) (hs : x ∈ seeds) (hleft : ∀ z ∈ left, z ∈ domain)
    (hrest : ∀ z ∈ rest, z ∈ seeds) (h : Within next left (next x ++ rest) y) :
    Within next domain seeds y := by
  induction h with
  | seed hd hm =>
    rcases List.mem_append.mp hm with hn | hr
    · exact .step (.seed hx hs) (hleft _ hd) hn
    · exact .seed (hleft _ hd) (hrest _ hr)
  | step _ hd hn ih => exact .step ih (hleft _ hd) hn

/-- What is reached is the visited element, or is reached from its successors and the other seeds
by paths that do not come back to it. -/
theorem Within.after_visit {next : α → List α} {domain left seeds rest : List α} {x y : α}
    (hleft : ∀ z ∈ domain, z ≠ x → z ∈ left)
    (hrest : ∀ z ∈ seeds, z ∈ domain → z = x ∨ z ∈ rest)
    (h : Within next domain seeds y) (hne : y ≠ x) : Within next left (next x ++ rest) y := by
  induction h with
  | seed hd hm =>
    exact .seed (hleft _ hd hne) (List.mem_append_right _ ((hrest _ hm hd).resolve_left hne))
  | @step u v _ hd hn ih =>
    by_cases hu : u = x
    · subst hu
      exact .seed (hleft _ hd hne) (List.mem_append_left _ hn)
    · exact .step (ih hu) (hleft _ hd hne) hn

variable [DecidableEq α]

/-- Visit at most `rounds` elements of `unvisited`, the first pending one each time. -/
def gatherFrom (next : α → List α) : Nat → List α → List α → List α
  | 0, _, _ => []
  | rounds + 1, unvisited, pending =>
    match pending.dropWhile (fun x => !unvisited.contains x) with
    | [] => []
    | x :: rest => x :: gatherFrom next rounds (unvisited.erase x) (next x ++ rest)

/-- All elements of `domain` that can be reached from `seeds` inside `domain`. -/
def gather (next : α → List α) (domain seeds : List α) : List α :=
  gatherFrom next domain.length domain seeds

private theorem not_within_of_dropWhile_nil {next : α → List α} {unvisited pending : List α}
    (h : pending.dropWhile (fun x => !unvisited.contains x) = []) {y : α} :
    ¬ Within next unvisited pending y := by
  have hall : ∀ x ∈ pending, x ∉ unvisited := by
    induction pending with
    | nil => simp
    | cons a rest ih => by_cases ha : a ∈ unvisited <;> simp_all
  intro hw
  induction hw with
  | seed hd hm => exact hall _ hm hd
  | step _ _ _ ih => exact ih

private theorem dropWhile_cons_facts {unvisited pending rest : List α} {x : α}
    (h : pending.dropWhile (fun x => !unvisited.contains x) = x :: rest) :
    x ∈ unvisited ∧ x ∈ pending ∧ (∀ z ∈ rest, z ∈ pending) ∧
      ∀ z ∈ pending, z ∈ unvisited → z = x ∨ z ∈ rest := by
  induction pending with
  | nil => simp at h
  | cons a tail ih =>
    by_cases ha : a ∈ unvisited
    · simp only [List.dropWhile_cons, List.contains_iff_mem.mpr ha] at h
      simp at h
      obtain ⟨rfl, rfl⟩ := h
      exact ⟨ha, by simp, fun z hz => by simp [hz], fun z hz _ => by simpa using hz⟩
    · have hd : tail.dropWhile (fun x => !unvisited.contains x) = x :: rest := by
        simpa [List.dropWhile_cons, ha] using h
      obtain ⟨hx, hp, hr, hk⟩ := ih hd
      refine ⟨hx, by simp [hp], fun z hz => by simp [hr z hz], fun z hz hu => ?_⟩
      rcases List.mem_cons.mp hz with rfl | hz
      · exact absurd hu ha
      · exact hk z hz hu

private theorem mem_gatherFrom_iff (next : α → List α) (rounds : Nat)
    (unvisited pending : List α) (hlen : unvisited.length ≤ rounds) (y : α) :
    y ∈ gatherFrom next rounds unvisited pending ↔ Within next unvisited pending y := by
  induction rounds generalizing unvisited pending with
  | zero =>
    have hnil : unvisited = [] := List.length_eq_zero_iff.mp (by omega)
    subst hnil
    simp only [gatherFrom, List.not_mem_nil, false_iff]
    intro h
    exact List.not_mem_nil h.mem_domain
  | succ rounds ih =>
    rw [gatherFrom]
    split
    next h => simpa using not_within_of_dropWhile_nil h
    next x rest h =>
      obtain ⟨hx, hs, hrest, hkeep⟩ := dropWhile_cons_facts h
      have hlt : (unvisited.erase x).length ≤ rounds := by
        rw [List.length_erase_of_mem hx]
        omega
      rw [List.mem_cons, ih _ _ hlt]
      constructor
      · rintro (rfl | hw)
        · exact .seed hx hs
        · exact hw.of_visited hx hs (fun _ => List.mem_of_mem_erase) hrest
      · intro hw
        by_cases hy : y = x
        · exact .inl hy
        · exact .inr (hw.after_visit (fun _ hz hne => (List.mem_erase_of_ne hne).mpr hz) hkeep hy)

/-- Gathering finds exactly the elements at the end of a path inside the domain. -/
theorem mem_gather_iff (next : α → List α) (domain seeds : List α) (y : α) :
    y ∈ gather next domain seeds ↔ Within next domain seeds y :=
  mem_gatherFrom_iff next _ domain seeds (Nat.le_refl _) y

end GuardElision.Reach
