import GuardElision.Proofs.Match.Session
import GuardElision.Redundancy.Phases

/-!
# How the ledger grows

A phase does nothing to the ledger but enter checks that are not in it yet. Each kind of
entry is described once, with all that the phase has tested when it makes it, and each phase
is shown to make entries of its kind only. What holds of every ledger that grows in this way
follows by induction on the growth, without another look at the loops.
-/

namespace GuardElision

namespace Ledger

theorem contains_eq_false_iff (l : Ledger) (id : CheckId) :
    l.contains id = false ↔ l.find? id = none := by
  simp [SortedMap.contains]

/-- Entering a new check changes what is recorded for this check only. -/
theorem find?_mark {l : Ledger} {id : CheckId} (h : l.find? id = none) (reason : Reason)
    (other : CheckId) :
    (mark l id reason).find? other = if other = id then some reason else l.find? other := by
  have hnew : ¬ l.contains id = true := by simp [(contains_eq_false_iff l id).mpr h]
  rw [mark, SortedMap.insertNew, if_neg hnew, SortedMap.find?_insert]

/-- One ledger grows into another by entries for new checks, each of them allowed by the ledger
at that moment. -/
inductive Growth (allowed : Ledger → CheckId → Reason → Prop) (start : Ledger) : Ledger → Prop where
  /-- Nothing is entered. -/
  | still : Growth allowed start start
  /-- A check that is not in the ledger is entered. -/
  | enter {l : Ledger} {id : CheckId} {reason : Reason} : Growth allowed start l →
      l.find? id = none → allowed l id reason → Growth allowed start (mark l id reason)

namespace Growth

variable {allowed : Ledger → CheckId → Reason → Prop} {a b c : Ledger}

theorem trans (hab : Growth allowed a b) (hbc : Growth allowed b c) : Growth allowed a c := by
  induction hbc with
  | still => exact hab
  | enter _ hnew hallowed ih => exact .enter ih hnew hallowed

theorem mono {weaker : Ledger → CheckId → Reason → Prop} (hab : Growth allowed a b)
    (h : ∀ l id reason, allowed l id reason → weaker l id reason) : Growth weaker a b := by
  induction hab with
  | still => exact .still
  | enter _ hnew hallowed ih => exact .enter ih hnew (h _ _ _ hallowed)

/-- Where nothing may be entered, nothing is. -/
theorem eq_of_forall_not (hab : Growth allowed a b)
    (hnone : ∀ l id reason, ¬ allowed l id reason) : b = a := by
  cases hab with
  | still => rfl
  | enter _ _ hallowed => exact absurd hallowed (hnone _ _ _)

/-- Where one check alone may be entered, nothing is entered or this check is, once. -/
theorem eq_or_mark (hab : Growth allowed a b) {id : CheckId}
    (honly : ∀ l key reason, allowed l key reason → key = id) :
    b = a ∨ ∃ reason, a.find? id = none ∧ allowed a id reason ∧ b = mark a id reason := by
  induction hab with
  | still => exact .inl rfl
  | @enter l key reason _ hnew hallowed ih =>
    obtain rfl := honly l key reason hallowed
    rcases ih with rfl | ⟨earlier, hfirst, _, rfl⟩
    · exact .inr ⟨reason, hnew, hallowed, rfl⟩
    · simp [find?_mark hfirst] at hnew

/-- What is in the ledger stays as it is. -/
theorem find?_eq_some (h : Growth allowed a b) {id : CheckId} {reason : Reason}
    (ha : a.find? id = some reason) : b.find? id = some reason := by
  induction h with
  | still => exact ha
  | @enter l key _ _ hnew _ ih =>
    have hne : id ≠ key := by
      rintro rfl
      simp [hnew] at ih
    rw [find?_mark hnew, if_neg hne, ih]

/-- Whatever the ledger says about a check, it said before or has a reason to say. -/
theorem cases_find? (h : Growth allowed a b) {id : CheckId} {reason : Reason}
    (hb : b.find? id = some reason) : a.find? id = some reason ∨ ∃ l, allowed l id reason := by
  induction h with
  | still => exact .inl hb
  | @enter l key _ _ hnew hallowed ih =>
    rw [find?_mark hnew] at hb
    split at hb
    · next heq =>
      subst heq
      exact .inr ⟨l, Option.some.inj hb ▸ hallowed⟩
    · exact ih hb

/-- A new entry of a ledger that grew by entries of one kind is of this kind. -/
theorem of_new {offer : CheckId → Reason → Prop} (h : Growth (fun _ => offer) a b) {id : CheckId}
    {reason : Reason} (hnew : a.find? id = none) (hfind : b.find? id = some reason) :
    offer id reason := by
  rcases h.cases_find? hfind with hold | ⟨_, hoffer⟩
  · cases hnew.symm.trans hold
  · exact hoffer

/-- What is said of an entry may rely on the check being new to the ledger it is entered in. -/
theorem mono_of_new {weaker : Ledger → CheckId → Reason → Prop} (hab : Growth allowed a b)
    (h : ∀ l id reason, Growth allowed a l → l.find? id = none → allowed l id reason →
      weaker l id reason) : Growth weaker a b := by
  induction hab with
  | still => exact .still
  | enter hgrow hnew hallowed ih => exact .enter ih hnew (h _ _ _ hgrow hnew hallowed)

/-- Where no new check may be entered at the start, none ever is. -/
theorem eq_of_forall_new_not (hab : Growth allowed a b)
    (hnone : ∀ id reason, a.find? id = none → ¬ allowed a id reason) : b = a := by
  induction hab with
  | still => rfl
  | enter _ hnew hallowed ih =>
    subst ih
    exact absurd hallowed (hnone _ _ hnew)

end Growth

end Ledger

/-- Whatever faithful session it runs in, a step grows a ledger by allowed entries and leaves a
faithful session behind. -/
def Compare.Grows (p : Program) (allowed : Ledger → CheckId → Reason → Prop) (ledger : Ledger)
    (x : Compare Ledger) : Prop :=
  ∀ s : Session, s.Faithful p →
    Ledger.Growth allowed ledger (x s).1 ∧ (x s).2.Faithful p

namespace Compare

variable {p : Program} {allowed : Ledger → CheckId → Reason → Prop} {ledger : Ledger}

theorem grows_pure : Grows p allowed ledger (pure ledger) := fun _ hs => ⟨.still, hs⟩

theorem Grows.mono {weaker : Ledger → CheckId → Reason → Prop} {x : Compare Ledger}
    (hx : Grows p allowed ledger x)
    (h : ∀ l id reason, allowed l id reason → weaker l id reason) : Grows p weaker ledger x :=
  fun s hs => ⟨(hx s hs).1.mono h, (hx s hs).2⟩

theorem Grows.ite {c : Prop} [Decidable c] {x y : Compare Ledger}
    (hx : c → Grows p allowed ledger x) (hy : ¬ c → Grows p allowed ledger y) :
    Grows p allowed ledger (if c then x else y) := by
  split
  · next h => exact hx h
  · next h => exact hy h

/-- Two steps that grow the ledger make one. -/
theorem Grows.bind {x : Compare Ledger} {pass : Pass} (hx : Grows p allowed ledger x)
    (hpass : ∀ l, Grows p allowed l (pass l)) : Grows p allowed ledger (x >>= pass) := by
  intro s hs
  obtain ⟨hgrow, hfaithful⟩ := hx s hs
  obtain ⟨hgrow', hfaithful'⟩ := hpass (x s).1 (x s).2 hfaithful
  exact ⟨hgrow.trans hgrow', hfaithful'⟩

/-- A step that looks at a steady comparison first grows the ledger when it does so for the
comparison's verdict. -/
theorem Grows.bind_steady {α : Type} {x : Compare α} {f : α → Compare Ledger} (hx : Steady p x)
    (hf : Grows p allowed ledger (f x.verdict)) : Grows p allowed ledger (x >>= f) := by
  intro s hs
  rw [hx.bind_apply hs]
  exact hf _ (hx.faithful s hs)

end Compare

namespace Phases

open Compare

variable {p : Program} {allowed : Ledger → CheckId → Reason → Prop} {ledger : Ledger}

/-- A loop grows the ledger when each round does. -/
theorem grows_each {α : Type} {items : List α} {pass : α → Pass}
    (h : ∀ x ∈ items, ∀ l, Grows p allowed l (pass x l)) (l : Ledger) :
    Grows p allowed l (each items pass l) := by
  induction items generalizing l with
  | nil => exact grows_pure
  | cons x rest ih =>
    exact (h x List.mem_cons_self l).bind fun l' =>
      ih (fun y hy => h y (List.mem_cons_of_mem x hy)) l'

/-- The round of an element starts from a ledger that the loop has grown, and what the round leaves
is grown further. -/
theorem growth_around_round {α : Type} {items : List α} {pass : α → Pass}
    (h : ∀ x ∈ items, ∀ l, Grows p allowed l (pass x l)) {x : α} (hx : x ∈ items) (l : Ledger)
    {s : Session} (hs : s.Faithful p) : ∃ l' s', s'.Faithful p ∧ Ledger.Growth allowed l l' ∧
      Ledger.Growth allowed (pass x l' s').1 (each items pass l s).1 := by
  induction items generalizing l s with
  | nil => cases hx
  | cons y rest ih =>
    have hrest : ∀ z ∈ rest, ∀ l, Grows p allowed l (pass z l) :=
      fun z hz => h z (List.mem_cons_of_mem y hz)
    obtain ⟨hgrow, hfaithful⟩ := h y List.mem_cons_self l s hs
    rcases List.mem_cons.mp hx with rfl | hx
    · exact ⟨l, s, hs, .still, (grows_each hrest _ _ hfaithful).1⟩
    · obtain ⟨l', s', hs', hbefore, hafter⟩ := ih hrest hx (pass y l s).1 hfaithful
      exact ⟨l', s', hs', hgrow.trans hbefore, hafter⟩

theorem grows_consider {candidate coverer : Check} {phase : Phase} {count : Count}
    {covered : Compare Bool} (hsteady : Steady p covered)
    (h : covered.verdict = true →
      allowed ledger candidate.id { count, phase, coverer := coverer.id }) :
    Grows p allowed ledger (consider candidate coverer phase count covered ledger) := by
  refine Grows.ite (fun _ => grows_pure) fun hnew => ?_
  rw [Bool.not_eq_true, Ledger.register_contains, Ledger.contains_eq_false_iff] at hnew
  refine Grows.bind_steady hsteady (Grows.ite (fun hcovered => ?_) fun _ => grows_pure)
  exact fun s hs => ⟨.enter .still hnew (h hcovered), hs⟩

theorem steady_firstCoverer (s : Strategy) (candidate : Check) (source : Source)
    (coverers : List Check) : Steady p (firstCoverer s p candidate source coverers) := by
  induction coverers with
  | nil => exact steady_pure none
  | cons c rest ih =>
    exact (s.steady_subsumed p candidate c source).bind fun _ => (steady_pure _).ite ih

/-- The first check that covers a candidate is the first one of which the comparison says so. -/
theorem verdict_firstCoverer (s : Strategy) (candidate : Check) (source : Source)
    (coverers : List Check) : (firstCoverer s p candidate source coverers).verdict =
      coverers.find? fun c => (s.subsumed p candidate c source).verdict := by
  induction coverers with
  | nil => rfl
  | cons c rest ih =>
    rw [firstCoverer, verdict_bind (s.steady_subsumed p candidate c source)
      fun _ => (steady_pure _).ite (steady_firstCoverer s candidate source rest), List.find?_cons]
    split
    · next hc =>
      rw [hc]
      rfl
    · next hc =>
      rw [Bool.not_eq_true] at hc
      rw [hc]
      exact ih

theorem grows_coverByFirst {s : Strategy} {candidate : Check} {source : Source} {phase : Phase}
    {count : Count} {coverers : List Check} (hnew : ledger.find? candidate.id = none)
    (h : ∀ c, coverers.find? (fun c => (s.subsumed p candidate c source).verdict) = some c →
      allowed ledger candidate.id { count, phase, coverer := c.id }) :
    Grows p allowed ledger (coverByFirst s p candidate source phase count coverers ledger) := by
  refine Grows.bind_steady (steady_firstCoverer s candidate source coverers) ?_
  rw [verdict_firstCoverer]
  cases hfirst : coverers.find? fun c => (s.subsumed p candidate c source).verdict with
  | none => exact grows_pure
  | some c => exact fun _ hs => ⟨.enter .still hnew (h c hfirst), hs⟩

end Phases

end GuardElision
