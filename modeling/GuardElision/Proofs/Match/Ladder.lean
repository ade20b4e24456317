import GuardElision.Proofs.Match.Retrace
import GuardElision.Proofs.Slice.Outside

/-!
# The ladder of precision levels

The two lower levels compare the shapes of conditions and accept the same pairs. The two higher ones
compare fingerprints, and through counts the highest accepts everything. So the only step of the
ladder that can lose a pair is the one from shapes to fingerprints: a value that is computed twice
has one leaf more than a value that is used twice, a read of several operands matches no other read,
and an address guard may be compared by its index alone. A pair is lost there exactly when the
comparison of its fingerprints gets stuck.
-/

namespace GuardElision

namespace Strategy

open Compare Program

/-- The address computation that is all of a fingerprint. -/
def address? (p : Program) (f : Fingerprint) : Option Node := do
  let id ← f.singleNode?
  let n ← p.node? id
  if n.opcode = .addressComputation then some n else none

/-- The address computation whose index alone is compared: for an address guard, when a user check
ran as often. -/
def indexed? (p : Program) (candidate coverer : Check) (source : Source) (own : Fingerprint) :
    Option Node :=
  if source = .coverage ∧ coverer.origin = .user ∧ candidate.kind = .address then address? p own
  else none

/-- Whether a comparison of the fingerprints of two checks gets stuck. -/
def isStuck (s : Strategy) (p : Program) (candidate coverer : Check) (source : Source) : Bool :=
  match p.condition? candidate.branch, p.condition? coverer.branch with
  | some a, some b =>
    let policy := MatchPolicy.ofKind candidate.kind
    let own := p.operandSlice policy.leaves a
    match indexed? p candidate coverer source own with
    | some address => Match.stuck p { policy with leaves := .value } s.maxDepth
        (p.operandsSlice .value (address.operands.drop 1)) (p.operandSlice .value b)
        (Match.indexPairs p s.maxDepth a b)
    | none => Match.stuck p policy s.maxDepth own (p.operandSlice policy.leaves b)
        (Match.leafPairs p policy.leaves s.maxDepth a b)
  | _, _ => false

/-- Whether a pair of checks is accepted at a level, after other requests. -/
def acceptsAt (s : Strategy) (level : Level) (p : Program) (candidate coverer : Check)
    (source : Source) (earlier : List Request) : Bool :=
  (Strategy.subsumed { s with level } p candidate coverer source
    (Request.sessionAfter p s.maxDepth earlier)).1

variable {p : Program} {candidate coverer : Check} {source : Source}

theorem leaves_of_address? {f : Fingerprint} {n : Node} (h : address? p f = some n) :
    ∃ id, f.leaves = [.node id] ∧ p.node? id = some n ∧ n.opcode = .addressComputation := by
  obtain ⟨id, hsingle, hrest⟩ := Option.bind_eq_some_iff.mp h
  obtain ⟨m, hm, hrest⟩ := Option.bind_eq_some_iff.mp hrest
  obtain ⟨hop, heq⟩ := Option.ite_none_right_eq_some.mp hrest
  obtain rfl := Option.some.inj heq
  exact ⟨id, Fingerprint.leaves_of_singleNode? hsingle, hm, hop⟩

private theorem indexOperands?_eq_map (f : Fingerprint) :
    indexOperands? p f = (address? p f).map fun n => n.operands.drop 1 := by
  unfold indexOperands? address?
  cases f.singleNode? with
  | none => rfl
  | some id =>
    cases hn : p.node? id with
    | none => simp [hn]
    | some n => by_cases hop : n.opcode = .addressComputation <;> simp [hn, hop]

private theorem ensures_sliceAll (operands : List Operand) :
    Ensures p (sliceAll p operands) (· = p.operandsSlice .value operands) := by
  have hfold : ∀ start : Fingerprint, Ensures p
      (operands.foldlM (fun found u => return found.union (← sliceOperand p .value u)) start)
      (· = operands.foldl (fun found u => found.union (p.operandSlice .value u)) start) := by
    induction operands with
    | nil => exact fun start => (steady_pure start).ensures
    | cons u rest ih =>
      intro start
      have hround : Ensures p (do return start.union (← sliceOperand p .value u))
          (· = start.union (p.operandSlice .value u)) :=
        (ensures_sliceOperand .value u).bind fun found hfound s hs => ⟨by rw [hfound]; rfl, hs⟩
      exact hround.bind fun found hfound => hfound ▸ ih found
  exact hfold .empty

/-- What of a check has to be covered, and how: the index of an address by value, or all of it. -/
def wanted (p : Program) (candidate coverer : Check) (source : Source) (own : Fingerprint) :
    Fingerprint × MatchPolicy :=
  match indexed? p candidate coverer source own with
  | some address => (p.operandsSlice .value (address.operands.drop 1),
      { MatchPolicy.ofKind candidate.kind with leaves := .value })
  | none => (own, MatchPolicy.ofKind candidate.kind)

private theorem ensures_refine (own : Fingerprint) : Ensures p
    (refine p candidate coverer source own) (· = wanted p candidate coverer source own) := by
  unfold refine wanted indexed?
  split
  · rw [indexOperands?_eq_map]
    cases address? p own with
    | none => exact (steady_pure _).ensures
    | some address =>
      exact (ensures_sliceAll _).bind fun found hfound s hs => ⟨by rw [hfound]; rfl, hs⟩
  · exact (steady_pure _).ensures

/-- Where fingerprints are compared and the counts are not taken as proof, the verdict is that on
what has to be covered of the candidate's condition. -/
theorem verdict_subsumed {s : Strategy} (hdeep : s.level.isShallow = false)
    (hcounts : ¬ (source = .coverage ∧ s.level.trustsCounts = true)) {a b : Operand}
    (ha : p.condition? candidate.branch = some a) (hb : p.condition? coverer.branch = some b)
    {f : Fingerprint} {policy : MatchPolicy} (hwanted : wanted p candidate coverer source
      (p.operandSlice (MatchPolicy.ofKind candidate.kind).leaves a) = (f, policy)) :
    (s.subsumed p candidate coverer source).verdict =
      (Match.sameLocation p policy s.maxDepth f (p.operandSlice policy.leaves b)).verdict := by
  suffices h : Ensures p (s.subsumed p candidate coverer source) (· = _) from
    (h {} (Session.faithful_fresh p)).1
  unfold subsumed
  rw [if_neg hcounts, if_neg (by simp [hdeep])]
  refine (ensures_sliceCheck _ candidate.branch).bind fun own hown => ?_
  refine (ensures_refine own).bind fun found hfound => ?_
  refine (ensures_sliceCheck _ coverer.branch).bind fun covering hcovering => ?_
  refine (Match.steady_sameLocation ..).ensures.mono fun _ hverdict => hverdict.trans ?_
  rw [ha] at hown
  rw [hb] at hcovering
  subst hown hcovering
  rw [hfound, Option.elim_some, Option.elim_some, hwanted]

/-- Where fingerprints are compared and the counts are not taken as proof, checks with conditions of
the same shape are accepted exactly when the comparison does not get stuck. -/
theorem subsumed_of_sameShape {s : Strategy} (hdeep : s.level.isShallow = false)
    (hcounts : ¬ (source = .coverage ∧ s.level.trustsCounts = true))
    (hdepth : 1 ≤ s.maxDepth) {a b : Operand} (ha : p.condition? candidate.branch = some a)
    (hb : p.condition? coverer.branch = some b)
    (hshape : (Match.sameShape p s.maxDepth a b).verdict = true) :
    (s.subsumed p candidate coverer source).verdict = true ↔
      s.isStuck p candidate coverer source = false := by
  simp only [isStuck, ha, hb]
  cases hindexed : indexed? p candidate coverer source
      (p.operandSlice (MatchPolicy.ofKind candidate.kind).leaves a) with
  | none =>
    rw [verdict_subsumed hdeep hcounts ha hb (by rw [wanted, hindexed])]
    exact Match.sameLocation_iff_not_stuck (Match.sameLocation_of_sameShape hdepth hshape)
  | some address =>
    obtain ⟨⟨_, _, hkind⟩, haddress⟩ := Option.ite_none_right_eq_some.mp hindexed
    obtain ⟨id, hleaves, hn, hop⟩ := leaves_of_address? haddress
    obtain ⟨levels, hlevels⟩ := Nat.exists_eq_add_one.mpr hdepth
    have hpolicy : (MatchPolicy.ofKind candidate.kind).leaves = .address := by rw [hkind]; rfl
    rw [hpolicy] at hleaves
    have hmem : Leaf.node id ∈ (p.operandSlice .address a).leaves := by simp [hleaves]
    rw [verdict_subsumed hdeep hcounts ha hb (by rw [wanted, hindexed])]
    rw [hlevels] at hshape ⊢
    exact Match.sameLocation_iff_not_stuck (Match.sameLocation_index hshape hmem hn hop)

/-- Where counts are not trusted, two levels that are both shallow or both not accept the same
pairs. -/
private theorem subsumed_congr {s : Strategy} {level : Level}
    (hcounts : ¬ (source = .coverage ∧ s.level.trustsCounts = true))
    (hcounts' : ¬ (source = .coverage ∧ level.trustsCounts = true))
    (hshallow : level.isShallow = s.level.isShallow) :
    Strategy.subsumed { s with level } p candidate coverer source =
      s.subsumed p candidate coverer source := by
  unfold subsumed
  dsimp only
  rw [if_neg hcounts, if_neg hcounts', hshallow]

/-- Whatever was requested before, a pair is accepted at a level as it is in a fresh session. -/
theorem acceptsAt_eq (s : Strategy) (level : Level) (earlier : List Request) :
    s.acceptsAt level p candidate coverer source earlier =
      (Strategy.subsumed { s with level } p candidate coverer source).verdict :=
  (Strategy.steady_subsumed { s with level } p candidate coverer source).value _
    (Request.faithful_sessionAfter p s.maxDepth earlier)

/-- What a shallow level accepts has conditions of the same shape. -/
theorem exists_sameShape_of_acceptsAt {s : Strategy} {level : Level} {earlier : List Request}
    (hshallow : level.isShallow = true)
    (h : s.acceptsAt level p candidate coverer source earlier = true) :
    ∃ a b, p.condition? candidate.branch = some a ∧ p.condition? coverer.branch = some b ∧
      (Match.sameShape p s.maxDepth a b).verdict = true := by
  rw [acceptsAt_eq, subsumed_of_isShallow (s := { s with level }) hshallow] at h
  cases ha : p.condition? candidate.branch with
  | none =>
    rw [ha] at h
    cases h
  | some a =>
    cases hb : p.condition? coverer.branch with
    | none =>
      rw [ha, hb] at h
      cases h
    | some b =>
      rw [ha, hb] at h
      exact ⟨a, b, rfl, rfl, h⟩

/-- Whatever was requested before, to a depth of at least one: the two lower levels accept the same
pairs; the highest accepts what the one below it accepts, and through coverage everything; and a
pair that a lower level accepts is accepted at the third one, and through dominance at the highest,
exactly when the comparison of its fingerprints does not get stuck. -/
theorem acceptsAt_ladder {s : Strategy} (hdepth : 1 ≤ s.maxDepth) (p : Program)
    (candidate coverer : Check) (source : Source) (earlier later : List Request) :
    s.acceptsAt .l0 p candidate coverer source earlier =
      s.acceptsAt .l1 p candidate coverer source later ∧
    (s.acceptsAt .l2 p candidate coverer source earlier = true →
      s.acceptsAt .l3 p candidate coverer source later = true) ∧
    (source = .coverage → s.acceptsAt .l3 p candidate coverer source later = true) ∧
    ∀ lower, lower.isShallow = true →
      s.acceptsAt lower p candidate coverer source earlier = true →
      (s.acceptsAt .l2 p candidate coverer source later = true ↔
        s.isStuck p candidate coverer source = false) ∧
      (source = .dominance → (s.acceptsAt .l3 p candidate coverer source later = true ↔
        s.isStuck p candidate coverer source = false)) := by
  have htrusted : source = .coverage → s.acceptsAt .l3 p candidate coverer source later = true := by
    intro hsource
    rw [acceptsAt_eq, subsumed_of_trustsCounts (s := { s with level := .l3 }) p candidate coverer
      ⟨hsource, rfl⟩]
    rfl
  have hdoubted : ∀ {level : Level}, level.trustsCounts = false →
      ¬ (source = .coverage ∧ level.trustsCounts = true) :=
    fun hno hboth => Bool.false_ne_true (hno.symm.trans hboth.2)
  refine ⟨?_, fun h => ?_, htrusted, fun lower hshallow h => ?_⟩
  · rw [acceptsAt_eq, acceptsAt_eq]
    exact congrArg Compare.verdict (subsumed_congr (s := { s with level := .l1 })
      (hdoubted rfl) (hdoubted rfl) rfl)
  · by_cases hsource : source = .coverage
    · exact htrusted hsource
    · rw [acceptsAt_eq] at h ⊢
      rw [← h]
      exact congrArg Compare.verdict (subsumed_congr (s := { s with level := .l2 })
        (hdoubted rfl) (fun hboth => hsource hboth.1) rfl)
  · obtain ⟨a, b, ha, hb, hshape⟩ := exists_sameShape_of_acceptsAt hshallow h
    refine ⟨?_, fun hsource => ?_⟩
    · rw [acceptsAt_eq]
      exact subsumed_of_sameShape (s := { s with level := .l2 }) rfl (hdoubted rfl) hdepth ha hb
        hshape
    · rw [acceptsAt_eq]
      refine subsumed_of_sameShape (s := { s with level := .l3 }) rfl ?_ hdepth ha hb hshape
      rintro ⟨hcoverage, _⟩
      rw [hsource] at hcoverage
      cases hcoverage

open Build in
/-- An element of an array is read twice at the same index. Each time it is tested against a bound,
and then the address it is read from is tested; in the end two reads of two operands are added up in
both orders, and the sums are tested. -/
def repeatedTests : Program :=
  let steps : Build Unit := do
    let main ← procedure "main"
    let body ← block main
    let done ← block main
    let fail ← block main
    let array ← external "array"
    let cursor ← external "cursor"
    let bound ← external "bound"
    let index ← operation body .memoryRead [.external cursor]
    let place ← operation body .addressComputation [.external array, .node index]
    let element ← operation body .memoryRead [.node place]
    let below ← operation body (.generic "lt") [.node element, .external bound]
    let _ ← branch body (.node below) done fail
    let _ ← branch body (.node place) done fail
    let index ← operation body .memoryRead [.external cursor]
    let place ← operation body .addressComputation [.external array, .node index]
    let element ← operation body .memoryRead [.node place]
    let below ← operation body (.generic "lt") [.node element, .external bound]
    let _ ← branch body (.node below) done fail
    let _ ← branch body (.node place) done fail
    let first ← operation body .memoryRead [.external array, .external cursor]
    let second ← operation body .memoryRead [.external array, .external cursor]
    let sum ← operation body (.generic "add") [.node first, .node second]
    let sum' ← operation body (.generic "add") [.node second, .node first]
    let _ ← branch body (.node sum) done fail
    let _ ← branch body (.node sum') done fail
  (steps.run.run { name := "repeated" }).2

/-- The tests of the element have the same shape and do not get stuck, and so it is with the tests
of the address, of which only the index is compared, and with the tests of the sums, in which the
reads could not be matched with each other but need not be; the pairs are accepted at the lowest
level and at a higher one, after other requests. -/
theorem repeatedTests_ladder :
    ((⟨.l2, "indvars", 4⟩ : Strategy).acceptsAt .l0 repeatedTests
        ⟨⟨1⟩, ⟨4⟩, .sanitizer, .generic⟩ ⟨⟨2⟩, ⟨10⟩, .sanitizer, .generic⟩ .dominance [] = true ∧
      (⟨.l2, "indvars", 4⟩ : Strategy).acceptsAt .l3 repeatedTests
        ⟨⟨1⟩, ⟨4⟩, .sanitizer, .generic⟩ ⟨⟨2⟩, ⟨10⟩, .sanitizer, .generic⟩ .dominance
        [.sliceCheck ⟨10⟩ .value] = true) ∧
    ((⟨.l2, "indvars", 4⟩ : Strategy).acceptsAt .l0 repeatedTests
        ⟨⟨1⟩, ⟨5⟩, .sanitizer, .address⟩ ⟨⟨2⟩, ⟨11⟩, .user, .generic⟩ .coverage [] = true ∧
      (⟨.l2, "indvars", 4⟩ : Strategy).acceptsAt .l2 repeatedTests
        ⟨⟨1⟩, ⟨5⟩, .sanitizer, .address⟩ ⟨⟨2⟩, ⟨11⟩, .user, .generic⟩ .coverage
        [.sameShape (.node ⟨3⟩) (.node ⟨9⟩)] = true) ∧
    ((⟨.l2, "indvars", 4⟩ : Strategy).acceptsAt .l1 repeatedTests
        ⟨⟨1⟩, ⟨16⟩, .sanitizer, .generic⟩ ⟨⟨2⟩, ⟨17⟩, .sanitizer, .generic⟩ .coverage [] = true ∧
      (⟨.l2, "indvars", 4⟩ : Strategy).acceptsAt .l2 repeatedTests
        ⟨⟨1⟩, ⟨16⟩, .sanitizer, .generic⟩ ⟨⟨2⟩, ⟨17⟩, .sanitizer, .generic⟩ .coverage [] =
          true) := by
  have helement : (⟨.l2, "indvars", 4⟩ : Strategy).acceptsAt .l0 repeatedTests
      ⟨⟨1⟩, ⟨4⟩, .sanitizer, .generic⟩ ⟨⟨2⟩, ⟨10⟩, .sanitizer, .generic⟩ .dominance [] = true := by
    decide +kernel
  have haddress : (⟨.l2, "indvars", 4⟩ : Strategy).acceptsAt .l0 repeatedTests
      ⟨⟨1⟩, ⟨5⟩, .sanitizer, .address⟩ ⟨⟨2⟩, ⟨11⟩, .user, .generic⟩ .coverage [] = true := by
    decide +kernel
  have hsum : (⟨.l2, "indvars", 4⟩ : Strategy).acceptsAt .l1 repeatedTests
      ⟨⟨1⟩, ⟨16⟩, .sanitizer, .generic⟩ ⟨⟨2⟩, ⟨17⟩, .sanitizer, .generic⟩ .coverage [] = true := by
    decide +kernel
  refine ⟨⟨helement, ?_⟩, ⟨haddress, ?_⟩, ⟨hsum, ?_⟩⟩
  · exact (((acceptsAt_ladder (by decide) _ _ _ _ _ _).2.2.2 .l0 rfl helement).2 rfl).mpr
      (by decide +kernel)
  · exact ((acceptsAt_ladder (by decide) _ _ _ _ _ _).2.2.2 .l0 rfl haddress).1.mpr
      (by decide +kernel)
  · exact ((acceptsAt_ladder (by decide) _ _ _ _ _ _).2.2.2 .l1 rfl hsum).1.mpr
      (by decide +kernel)

open Build in
/-- Pairs of conditions of the same shape whose comparison gets stuck: a value that is read twice
and a value that is used twice, two reads of two operands, two reads at literals, two branches used
as values; then an address with a literal for its index, and one with an external. -/
def lookalikes : Program :=
  let steps : Build Unit := do
    let main ← procedure "main"
    let body ← block main
    let done ← block main
    let fail ← block main
    let base ← external "base"
    let index ← external "index"
    let first ← operation body .memoryRead [.external base]
    let second ← operation body .memoryRead [.external base]
    let different ← operation body (.generic "add") [.node first, .node second]
    let same ← operation body (.generic "add") [.node first, .node first]
    let _ ← branch body (.node different) done fail
    let _ ← branch body (.node same) done fail
    let wide ← operation body .memoryRead [.external base, .external index]
    let wide' ← operation body .memoryRead [.external base, .external index]
    let _ ← branch body (.node wide) done fail
    let _ ← branch body (.node wide') done fail
    let one ← operation body .constant [.constant (.int 1)]
    let one' ← operation body .constant [.constant (.int 1)]
    let fixed ← operation body .memoryRead [.node one]
    let fixed' ← operation body .memoryRead [.node one']
    let _ ← branch body (.node fixed) done fail
    let _ ← branch body (.node fixed') done fail
    let test ← branch body (.external base) done fail
    let test' ← branch body (.external base) done fail
    let _ ← branch body (.node test) done fail
    let _ ← branch body (.node test') done fail
    let start ← operation body .addressComputation [.external base, .constant (.int 0)]
    let place ← operation body .addressComputation [.external base, .external index]
    let _ ← branch body (.node start) done fail
    let _ ← branch body (.node place) done fail
  (steps.run.run { name := "lookalikes" }).2

/-- Whether the condition of a sanitizer check has leaves at all, and at which levels a user check
makes it superfluous, from the lowest to the highest. -/
def lookalikeVerdicts (maxDepth : Nat) (kind : GuardKind) (candidate coverer : NodeId)
    (source : Source) : Bool × List Bool :=
  let own := (sliceCheck lookalikes (MatchPolicy.ofKind kind).leaves candidate).verdict
  (!own.isEmpty, [Level.l0, .l1, .l2, .l3].map fun level =>
    ((⟨level, "indvars", maxDepth⟩ : Strategy).subsumed lookalikes
      ⟨⟨1⟩, candidate, .sanitizer, kind⟩ ⟨⟨2⟩, coverer, .user, .generic⟩ source).verdict)

/-- A higher level may reject what a lower one accepts, for each of the reasons to get stuck: too
few leaves, reads of several operands, operands without leaves, branches as values, an index
without leaves, and an index that is one level too deep. -/
theorem lookalikes_rejected :
    lookalikeVerdicts 32 .generic ⟨4⟩ ⟨5⟩ .dominance = (true, [true, true, false, false]) ∧
    lookalikeVerdicts 32 .generic ⟨8⟩ ⟨9⟩ .dominance = (true, [true, true, false, false]) ∧
    lookalikeVerdicts 32 .generic ⟨14⟩ ⟨15⟩ .dominance = (true, [true, true, false, false]) ∧
    lookalikeVerdicts 32 .generic ⟨18⟩ ⟨19⟩ .dominance = (true, [true, true, false, false]) ∧
    lookalikeVerdicts 32 .address ⟨22⟩ ⟨22⟩ .coverage = (true, [true, true, false, true]) ∧
    lookalikeVerdicts 1 .address ⟨23⟩ ⟨23⟩ .coverage = (true, [true, true, false, true]) := by
  decide +kernel

end Strategy

end GuardElision
