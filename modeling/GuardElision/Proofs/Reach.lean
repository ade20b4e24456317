import GuardElision.Reach
import Mathlib.Data.Prod.Lex
import Mathlib.Logic.Relation
import Mathlib.Order.WellFounded

/-!
# Traversals

A traversal keeps an agenda: what it has visited and what is still pending. Each round takes
something pending off the agenda, drops it if it was visited before, and otherwise visits it and
makes pending what it leads to. Which of the pending elements is taken is left open, so that a queue
and a stack are both traversals, and so is whether visited elements are made pending again. The
same element may be pending any number of times.

Where only finitely many elements lead anywhere, no traversal goes on for ever: the elements of this
kind are each visited once, and every other round makes the agenda shorter. And however the rounds
are chosen, a traversal that has nothing left to do has visited exactly what can be reached: what is
on the agenda can be reached, and what a visited element leads to is on the agenda. `gather` is the
traversal that stays in a finite domain and drops at once whatever it will not visit, so that it
needs no more rounds than the domain has elements.
-/

namespace GuardElision.Reach

variable {α : Type}

/-- What a traversal has visited, the latest in front, and what is pending. -/
structure Agenda (α : Type) where
  visited : List α
  pending : List α

/-- A step from one element to another. -/
def Leads (next : α → List α) (x y : α) : Prop := y ∈ next x

namespace Agenda

/-- The agenda on which nothing but a root is pending. -/
def start (root : α) : Agenda α := ⟨[], [root]⟩

/-- What is on an agenda. -/
def Lists (agenda : Agenda α) (x : α) : Prop := x ∈ agenda.visited ∨ x ∈ agenda.pending

/-- One round of a traversal. -/
inductive Round (next : α → List α) : Agenda α → Agenda α → Prop where
  /-- Something that was visited before is dropped. -/
  | drop {visited pending rest : List α} {x : α} : pending.Perm (x :: rest) → x ∈ visited →
      Round next ⟨visited, pending⟩ ⟨visited, rest⟩
  /-- Something new is visited. Of what it leads to, only visited elements may be left out. -/
  | visit {visited pending rest more later : List α} {x : α} : pending.Perm (x :: rest) →
      x ∉ visited → more.Sublist (next x) → (∀ y ∈ next x, y ∈ x :: visited ∨ y ∈ more) →
      later.Perm (more ++ rest) → Round next ⟨visited, pending⟩ ⟨x :: visited, later⟩

/-- A traversal from a root that has nothing left to do. -/
def Ends (next : α → List α) (root : α) (visited : List α) : Prop :=
  Relation.ReflTransGen (Round next) (start root) ⟨visited, []⟩

variable {next : α → List α} {agenda after : Agenda α} {root x : α}

/-- As long as something is pending there is a next round. -/
theorem exists_round (next : α → List α) (h : agenda.pending ≠ []) :
    ∃ after, Round next agenda after := by
  classical
  obtain ⟨visited, pending⟩ := agenda
  obtain ⟨x, rest, rfl⟩ := List.exists_cons_of_ne_nil h
  by_cases hx : x ∈ visited
  · exact ⟨_, .drop (.refl _) hx⟩
  · exact ⟨_, .visit (.refl _) hx (.refl _) (fun _ => .inr) (.refl _)⟩

/-- Everything on the agenda can be reached, and nothing was forgotten: neither the root nor what a
visited element leads to. -/
structure Sound (next : α → List α) (root : α) (agenda : Agenda α) : Prop where
  reached : ∀ x, agenda.Lists x → Relation.ReflTransGen (Leads next) root x
  root_listed : agenda.Lists root
  closed : ∀ x ∈ agenda.visited, ∀ y ∈ next x, agenda.Lists y

theorem sound_start (next : α → List α) (root : α) : Sound next root (start root) where
  reached x hx := by
    obtain hx | hx := hx
    · cases hx
    · exact List.mem_singleton.mp hx ▸ .refl
  root_listed := .inr (List.mem_singleton.mpr rfl)
  closed x hx := by cases hx

/-- A round keeps everything on the agenda, and adds only what the visited element leads to. -/
theorem Round.lists (h : Round next agenda after) :
    (∀ x, agenda.Lists x → after.Lists x) ∧
      ∀ x, after.Lists x → agenda.Lists x ∨ ∃ y, agenda.Lists y ∧ x ∈ next y := by
  cases h with
  | @drop visited pending rest x hperm hx =>
    constructor
    · rintro y (hy | hy)
      · exact .inl hy
      · rcases List.mem_cons.mp (hperm.mem_iff.mp hy) with rfl | hy
        · exact .inl hx
        · exact .inr hy
    · rintro y (hy | hy)
      · exact .inl (.inl hy)
      · exact .inl (.inr (hperm.mem_iff.mpr (List.mem_cons_of_mem x hy)))
  | @visit visited pending rest more later x hperm hx hmore hall hlater =>
    have hpending : x ∈ pending := hperm.mem_iff.mpr List.mem_cons_self
    constructor
    · rintro y (hy | hy)
      · exact .inl (List.mem_cons_of_mem x hy)
      · rcases List.mem_cons.mp (hperm.mem_iff.mp hy) with rfl | hy
        · exact .inl List.mem_cons_self
        · exact .inr (hlater.mem_iff.mpr (List.mem_append_right more hy))
    · rintro y (hy | hy)
      · rcases List.mem_cons.mp hy with rfl | hy
        · exact .inl (.inr hpending)
        · exact .inl (.inl hy)
      · rcases List.mem_append.mp (hlater.mem_iff.mp hy) with hy | hy
        · exact .inr ⟨x, .inr hpending, hmore.subset hy⟩
        · exact .inl (.inr (hperm.mem_iff.mpr (List.mem_cons_of_mem x hy)))

/-- What the element of a visit leads to is on the agenda afterwards. -/
theorem Round.closed (h : Round next agenda after)
    (hclosed : ∀ x ∈ agenda.visited, ∀ y ∈ next x, agenda.Lists y) :
    ∀ x ∈ after.visited, ∀ y ∈ next x, after.Lists y := by
  have hkept := h.lists.1
  cases h with
  | drop => exact fun x hx y hy => hkept y (hclosed x hx y hy)
  | visit hperm hx hmore hall hlater =>
    intro z hz y hy
    rcases List.mem_cons.mp hz with rfl | hz
    · exact (hall y hy).imp_right fun hy => hlater.mem_iff.mpr (List.mem_append_left _ hy)
    · exact hkept y (hclosed z hz y hy)

theorem Sound.round (hsound : Sound next root agenda) (h : Round next agenda after) :
    Sound next root after where
  reached x hx := by
    rcases h.lists.2 x hx with hx | ⟨y, hy, hstep⟩
    · exact hsound.reached x hx
    · exact (hsound.reached y hy).tail hstep
  root_listed := h.lists.1 root hsound.root_listed
  closed := h.closed hsound.closed

/-- At its end, a traversal has visited exactly what can be reached from its root. -/
theorem Ends.mem_visited_iff {visited : List α} (h : Ends next root visited) :
    x ∈ visited ↔ Relation.ReflTransGen (Leads next) root x := by
  have hsound : ∀ {agenda}, Relation.ReflTransGen (Round next) (start root) agenda →
      Sound next root agenda := by
    intro agenda hrounds
    induction hrounds with
    | refl => exact sound_start next root
    | tail _ hround ih => exact ih.round hround
  have hlast := hsound h
  have hvisited : ∀ {y}, Lists ⟨visited, []⟩ y → y ∈ visited :=
    fun hy => hy.resolve_right List.not_mem_nil
  constructor
  · exact fun hx => hlast.reached x (.inl hx)
  · intro hx
    induction hx with
    | refl => exact hvisited hlast.root_listed
    | tail _ hstep ih => exact hvisited (hlast.closed _ ih _ hstep)

section Termination

variable [DecidableEq α] {domain : List α}

/-- How much there is left to do: how many elements of the domain to visit, and how many pending
ones to take off the agenda. -/
def size (domain : List α) (agenda : Agenda α) : Nat × Nat :=
  ((domain.filter fun x => !agenda.visited.contains x).length, agenda.pending.length)

/-- A visit leaves one element of the domain less to visit. -/
theorem size_visit_of_mem {visited pending later : List α} (hx : x ∉ visited) (hmem : x ∈ domain) :
    (size domain ⟨x :: visited, later⟩).1 < (size domain ⟨visited, pending⟩).1 := by
  have hfilter : (domain.filter fun y => !(x :: visited).contains y) =
      (domain.filter fun y => !visited.contains y).filter fun y => y != x := by
    rw [List.filter_filter]
    refine List.filter_congr fun y _ => ?_
    rw [List.contains_cons, Bool.not_or]
    rfl
  rw [size, size, hfilter]
  refine List.length_filter_lt_length_iff_exists.mpr ⟨x, List.mem_filter.mpr ⟨hmem, ?_⟩, ?_⟩
  · simpa using hx
  · simp

theorem size_visit_of_not_mem {visited pending later : List α} (hmem : x ∉ domain) :
    (size domain ⟨x :: visited, later⟩).1 = (size domain ⟨visited, pending⟩).1 := by
  have hfilter : (domain.filter fun y => !(x :: visited).contains y) =
      domain.filter fun y => !visited.contains y := by
    refine List.filter_congr fun y hy => ?_
    have hne : y ≠ x := fun heq => hmem (heq ▸ hy)
    simp [hne]
  rw [size, size, hfilter]

variable (hdomain : ∀ x, x ∉ domain → next x = [])

include hdomain

/-- Every round leaves less to do. -/
theorem Round.size_lt (h : Round next agenda after) :
    Prod.Lex (· < ·) (· < ·) (after.size domain) (agenda.size domain) := by
  cases h with
  | @drop visited pending rest x hperm _ =>
    refine .right _ ?_
    rw [hperm.length_eq, List.length_cons]
    exact Nat.lt_succ_self _
  | @visit visited pending rest more later x hperm hx hmore _ hlater =>
    by_cases hmem : x ∈ domain
    · exact .left _ _ (size_visit_of_mem hx hmem)
    · -- outside the domain nothing becomes pending
      obtain rfl : more = [] := List.sublist_nil.mp (hdomain x hmem ▸ hmore)
      refine Prod.lex_def.mpr (.inr ⟨size_visit_of_not_mem hmem, ?_⟩)
      simp only [size, hlater.length_eq, hperm.length_eq, List.nil_append, List.length_cons]
      exact Nat.lt_succ_self _

/-- No traversal goes on for ever. -/
theorem wellFounded_round : WellFounded fun after agenda => Round next agenda after :=
  Subrelation.wf (Round.size_lt hdomain)
    (InvImage.wf (size domain) (WellFounded.prod_lex wellFounded_lt wellFounded_lt))

/-- Some traversal from a root comes to its end. -/
theorem exists_ends (root : α) : ∃ visited, Ends next root visited := by
  have hfrom : ∀ agenda, Relation.ReflTransGen (Round next) (start root) agenda →
      ∃ visited, Ends next root visited := by
    intro agenda
    induction agenda using (wellFounded_round hdomain).induction with
    | _ agenda ih =>
      intro hrounds
      by_cases hpending : agenda.pending = []
      · obtain ⟨visited, pending⟩ := agenda
        subst hpending
        exact ⟨visited, hrounds⟩
      · obtain ⟨after, hround⟩ := exists_round next hpending
        exact ih after hround (hrounds.tail hround)
  exact hfrom _ .refl

end Termination

end Agenda

variable [DecidableEq α]

/-- As many rounds as there are elements are enough: in further ones nothing is left to visit. -/
theorem gatherFrom_eq_of_le (next : α → List α) (pending : List α) {rounds : Nat}
    {unvisited : List α} (hrounds : unvisited.length ≤ rounds) :
    gatherFrom next rounds unvisited pending =
      gatherFrom next unvisited.length unvisited pending := by
  induction rounds generalizing unvisited pending with
  | zero => rw [Nat.le_zero.mp hrounds]
  | succ rounds ih =>
    rw [gatherFrom]
    cases hdrop : pending.dropWhile fun x => !unvisited.contains x with
    | nil =>
      cases unvisited.length with
      | zero => rfl
      | succ k => rw [gatherFrom, hdrop]
    | cons x rest =>
      have hx : x ∈ unvisited := by
        have hhead := List.head?_dropWhile_not (fun x => !unvisited.contains x) pending
        rw [hdrop] at hhead
        simpa using hhead
      have herase : unvisited.length = (unvisited.erase x).length + 1 := by
        have hpositive := List.length_pos_of_mem hx
        rw [List.length_erase_of_mem hx]
        omega
      rw [herase, gatherFrom, hdrop]
      dsimp only
      rw [ih _ (by omega)]

end GuardElision.Reach
