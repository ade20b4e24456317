import GuardElision.Proofs.Ordered.Map
import GuardElision.Proofs.Redundancy.Offers
import GuardElision.Proofs.Redundancy.Tally

/-!
# What a phase adds

A pass that is described by its offers enters the checks that something is offered for. When
several items of a loop have an offer for one check, the check is in the ledger after the first of
them and the others find it there, so the first one is recorded (`Phases.settles_each_first`). If
in the end no more than one offer is left for each check, the offers say exactly what the pass
adds to a ledger (`Phases.Adds`), whatever is in it.
-/

namespace GuardElision.Phases

open Compare

/-- The entries that a phase adds to a ledger, of which it tells the number: entries that were there
stay as they are, and a check that was not there is entered exactly for the reason described. -/
structure Adds (entry : CheckId → Reason → Prop) (l : Ledger) (outcome : Nat × Ledger) : Prop where
  kept : ∀ id reason, l.find? id = some reason → outcome.2.find? id = some reason
  added_iff : ∀ id reason, l.find? id = none →
    (outcome.2.find? id = some reason ↔ entry id reason)
  number_eq : outcome.1 = (outcome.2.keys.filter fun id => !l.contains id).length

section Settles

variable {p : Program} {offer other : CheckId → Reason → Prop} {first second pass : Pass}

/-- After a pass, the ledger holds what it held and what something was offered for. -/
theorem Settles.contains_after_iff (h : Settles p offer pass) (l : Ledger) {session : Session}
    (hs : session.Faithful p) (id : CheckId) : (pass l session).1.contains id = true ↔
      l.contains id = true ∨ ∃ reason, offer id reason := by
  have hgrow := (h.grows l session hs).1
  constructor
  · intro hin
    obtain ⟨reason, hfind⟩ := (Ledger.contains_iff _ id).mp hin
    rcases hgrow.cases_find? hfind with hold | ⟨_, hoffer⟩
    · exact .inl ((Ledger.contains_iff l id).mpr ⟨reason, hold⟩)
    · exact .inr ⟨reason, hoffer⟩
  · rintro (hold | ⟨reason, hoffer⟩)
    · exact hgrow.contains hold
    · exact h.complete l session hs id reason hoffer

/-- With at most one offer for each check, a pass adds what it offers. -/
theorem Settles.adds (h : Settles p offer pass) {counting : Pass Tally}
    (hcounts : ∀ t : Tally, Counts t (pass t.ledger) (counting t))
    (hunique : ∀ id reason reason', offer id reason → offer id reason' → reason = reason')
    (l : Ledger) {session : Session} (hs : session.Faithful p) :
    Adds offer l (counted counting l session).1 := by
  have hgrow := (h.grows l session hs).1
  have hkept : ∀ id reason, l.find? id = some reason →
      (pass l session).1.find? id = some reason := fun _ _ hfind => hgrow.find?_eq_some hfind
  rw [counted_fst hcounts]
  refine ⟨hkept, fun id reason hnew => ?_, SortedMap.size_sub_size hkept⟩
  constructor
  · intro hfind
    exact hgrow.of_new hnew hfind
  · intro hoffer
    obtain ⟨reason', hfind⟩ :=
      (Ledger.contains_iff _ id).mp (h.complete l session hs id reason hoffer)
    rw [hunique id reason reason' hoffer (hgrow.of_new hnew hfind)]
    exact hfind

/-- Of two passes in a row, the second enters what the first has no offer for. -/
theorem Settles.seq_first (hfirst : Settles p offer first) (hsecond : Settles p other second) :
    Settles p (fun id reason => offer id reason ∨ (∀ why, ¬ offer id why) ∧ other id reason)
      (fun l => first l >>= second) := by
  refine ⟨fun l session hs => ?_, fun l session hs id reason hoffer => ?_⟩
  · obtain ⟨hgrow, hfaithful⟩ := hfirst.grows l session hs
    obtain ⟨hgrow', hfaithful'⟩ := hsecond.grows (first l session).1 _ hfaithful
    refine ⟨(hgrow.mono fun _ _ _ h => .inl h).trans (hgrow'.mono_of_new ?_), hfaithful'⟩
    intro l' id reason hbetween hnew hother
    refine .inr ⟨fun why hoffer => ?_, hother⟩
    -- what the first pass has an offer for is in the ledger from then on
    have hin := hbetween.contains (hfirst.complete l session hs id why hoffer)
    rw [(Ledger.contains_eq_false_iff l' id).mpr hnew] at hin
    cases hin
  · obtain ⟨_, hfaithful⟩ := hfirst.grows l session hs
    rcases hoffer with h | ⟨_, h⟩
    · exact (hsecond.grows _ _ hfaithful).1.contains (hfirst.complete l session hs id reason h)
    · exact hsecond.complete _ _ hfaithful id reason h

end Settles

/-- The first of some items that has an offer for a check offers this. -/
def FirstOffer {α : Type} (items : List α) (offer : α → CheckId → Reason → Prop) (id : CheckId)
    (reason : Reason) : Prop :=
  ∃ (k : Nat) (x : α), items[k]? = some x ∧ offer x id reason ∧
    ∀ (j : Nat) (y : α), j < k → items[j]? = some y → ∀ why, ¬ offer y id why

section FirstOffer

variable {α : Type} {offer : α → CheckId → Reason → Prop} {id : CheckId} {reason : Reason}

theorem not_firstOffer_nil : ¬ FirstOffer [] offer id reason := by
  rintro ⟨k, x, hx, _⟩
  simp at hx

theorem firstOffer_cons_iff (x : α) (rest : List α) : FirstOffer (x :: rest) offer id reason ↔
    offer x id reason ∨ (∀ why, ¬ offer x id why) ∧ FirstOffer rest offer id reason := by
  constructor
  · rintro ⟨k, y, hy, hoffer, hbefore⟩
    cases k with
    | zero =>
      obtain rfl : x = y := by simpa using hy
      exact .inl hoffer
    | succ k =>
      refine .inr ⟨hbefore 0 x (Nat.succ_pos k) rfl, k, y, by simpa using hy, hoffer, ?_⟩
      intro j z hj hz
      exact hbefore (j + 1) z (by omega) (by simpa using hz)
  · rintro (hoffer | ⟨hnone, k, y, hy, hoffer, hbefore⟩)
    · refine ⟨0, x, rfl, hoffer, fun j y hj => ?_⟩
      omega
    · refine ⟨k + 1, y, by simpa using hy, hoffer, fun j z hj hz => ?_⟩
      cases j with
      | zero =>
        obtain rfl : x = z := by simpa using hz
        exact hnone
      | succ j => exact hbefore j z (by omega) (by simpa using hz)

/-- A check has one first offer, if no item has two for it. -/
theorem FirstOffer.unique {items : List α}
    (hunique : ∀ x ∈ items, ∀ reason reason', offer x id reason → offer x id reason' →
      reason = reason') {reason' : Reason} (h : FirstOffer items offer id reason)
    (h' : FirstOffer items offer id reason') : reason = reason' := by
  obtain ⟨k, x, hx, hoffer, hbefore⟩ := h
  obtain ⟨k', x', hx', hoffer', hbefore'⟩ := h'
  rcases Nat.lt_trichotomy k k' with hlt | rfl | hlt
  · exact absurd hoffer (hbefore' k x hlt hx reason)
  · obtain rfl := Option.some.inj (hx.symm.trans hx')
    exact hunique x (List.mem_of_getElem? hx) reason reason' hoffer hoffer'
  · exact absurd hoffer' (hbefore k' x' hlt hx' reason')

end FirstOffer

/-- A loop enters a check with the first item that has an offer for it. -/
theorem settles_each_first {p : Program} {α : Type} {items : List α} {pass : α → Pass}
    {offer : α → CheckId → Reason → Prop} (h : ∀ x ∈ items, Settles p (offer x) (pass x)) :
    Settles p (FirstOffer items offer) (each items pass) := by
  induction items with
  | nil => exact settles_pure.congr fun _ _ => ⟨False.elim, not_firstOffer_nil⟩
  | cons x rest ih =>
    have hrest := ih fun y hy => h y (List.mem_cons_of_mem x hy)
    exact ((h x List.mem_cons_self).seq_first hrest).congr fun id reason =>
      (firstOffer_cons_iff x rest).symm

end GuardElision.Phases
