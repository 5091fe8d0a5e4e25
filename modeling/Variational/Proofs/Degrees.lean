import Variational.Proofs.Progress

/-!
# Degrees after a failure

A polynomial degree cannot be taken back, so it matters which spaces have one after a request
that fails. Setting the degree of one space and finding the space of an operator fail before they
write. Making all spaces finite goes through them in the order of their creation and breaks off
at the first one with another degree: those before it have the new degree from then on.
-/

namespace Variational

open Derive

variable {s s' : Session}

/-! ## Derivations and spaces -/

namespace Derive

variable {α β : Type} {m : Derive α}

/-- All spaces stay as they are, whether the derivation succeeds or fails. -/
def LeavesSpaces (m : Derive α) (s : Session) : Prop :=
  (m.after s).spaces = s.spaces

/-- All spaces stay as they are if the derivation fails. -/
def FailsSafely (m : Derive α) (s : Session) : Prop :=
  ∀ failure s', m s = .error failure s' → s'.spaces = s.spaces

namespace LeavesSpaces

theorem pure {a : α} : (Pure.pure a : Derive α).LeavesSpaces s :=
  rfl

theorem lift {o : Outcome α} : (liftM o : Derive α).LeavesSpaces s := by
  cases o <;> rfl

theorem set (same : s'.spaces = s.spaces) :
    (MonadStateOf.set s' : Derive PUnit).LeavesSpaces s :=
  same

theorem bind {f : α → Derive β} (first : m.LeavesSpaces s)
    (rest : ∀ a s', m s = .ok a s' → (f a).LeavesSpaces s') : (m >>= f).LeavesSpaces s := by
  unfold LeavesSpaces after at first ⊢
  simp only [Bind.bind, EStateM.bind]
  cases run : m s with
  | ok a mid =>
    rw [run] at first
    exact (rest a mid run).trans first
  | error _ mid =>
    rw [run] at first
    exact first

theorem get_bind {f : Session → Derive β} (rest : (f s).LeavesSpaces s) :
    (get >>= f : Derive β).LeavesSpaces s :=
  rest

theorem lift_bind {o : Outcome α} {f : α → Derive β} (rest : ∀ a, (f a).LeavesSpaces s) :
    (liftM o >>= f : Derive β).LeavesSpaces s := by
  refine .bind .lift fun a mid run => ?_
  obtain ⟨-, rfl⟩ := lift_eq_ok.1 run
  exact rest a

end LeavesSpaces

namespace FailsSafely

theorem of_leavesSpaces (leaves : m.LeavesSpaces s) : m.FailsSafely s := by
  intro failure s' run
  unfold LeavesSpaces after at leaves
  rwa [run] at leaves

theorem pure {a : α} : (Pure.pure a : Derive α).FailsSafely s :=
  of_leavesSpaces .pure

/-- Only the first part may write before the second one fails. -/
theorem bind {f : α → Derive β} (first : m.FailsSafely s)
    (rest : ∀ a s' failure s'', m s = .ok a s' → f a s' = .error failure s'' →
      s''.spaces = s.spaces) : (m >>= f).FailsSafely s := by
  intro failure s'' run
  simp only [Bind.bind, EStateM.bind] at run
  cases step : m s with
  | ok a mid =>
    rw [step] at run
    exact rest a mid failure s'' step run
  | error _ mid =>
    rw [step] at run
    cases run
    exact first _ _ step

theorem bind_leaving {f : α → Derive β} (first : m.LeavesSpaces s)
    (rest : ∀ a s', m s = .ok a s' → (f a).FailsSafely s') : (m >>= f).FailsSafely s := by
  refine .bind (of_leavesSpaces first) fun a mid failure s'' step run => ?_
  rw [LeavesSpaces, after_of_ok step] at first
  exact (rest a mid step failure s'' run).trans first

theorem get_bind {f : Session → Derive β} (rest : (f s).FailsSafely s) :
    (get >>= f : Derive β).FailsSafely s :=
  rest

theorem lift_bind {o : Outcome α} {f : α → Derive β} (rest : ∀ a, (f a).FailsSafely s) :
    (liftM o >>= f : Derive β).FailsSafely s := by
  refine .bind_leaving .lift fun a mid run => ?_
  obtain ⟨-, rfl⟩ := lift_eq_ok.1 run
  exact rest a

theorem guard {c : Prop} [Decidable c] {o : Outcome PUnit} {f : PUnit → Derive α}
    (rest : (f ⟨⟩).FailsSafely s) :
    (if c then liftM o >>= f else f ⟨⟩ : Derive α).FailsSafely s := by
  split
  · exact .lift_bind fun _ => rest
  · exact rest

end FailsSafely

end Derive

theorem Manifold.boundary_leavesSpaces (id : ManifoldId) : (boundary id).LeavesSpaces s := by
  refine .get_bind ?_
  split
  · exact .pure
  · refine .lift_bind fun m => ?_
    split
    · exact .pure
    · exact .lift_bind fun _ => .bind (.get_bind (.bind (.set rfl) fun _ _ _ => .pure))
        fun _ _ _ => .pure

theorem Mesh.boundary_leavesSpaces (id : MeshId) : (boundary id).LeavesSpaces s := by
  refine .get_bind ?_
  split
  · exact .pure
  · refine .get_bind (.lift_bind fun m => .bind (Manifold.boundary_leavesSpaces _) ?_)
    intro r mid _
    cases r with
    | none => exact .pure
    | some b =>
      refine .get_bind (.lift_bind fun _ => .bind (.get_bind (.lift_bind fun n => ?_))
        fun _ _ _ => .pure)
      exact .bind (.set rfl) fun _ _ _ => .pure

namespace Space

/-! ## Single spaces -/

theorem setDegree_failsSafely (space : SpaceId) (d : Nat) : (setDegree space d).FailsSafely s := by
  refine .get_bind (.lift_bind fun sp => ?_)
  split
  · exact fun failure s' run => nomatch run
  · refine .of_leavesSpaces ?_
    split
    · exact .lift
    · exact .pure

theorem withDegree_failsSafely (mesh : MeshId) (k : Nat) (orientation : Orientation)
    (degree : Option Nat) : (withDegree mesh k orientation degree).FailsSafely s := by
  refine .get_bind (.lift_bind fun m => .guard ?_)
  split
  · cases degree with
    | none => exact .pure
    | some d => exact .bind (setDegree_failsSafely _ d) fun _ _ failure s'' _ run => nomatch run
  · exact fun failure s' run => nomatch run

theorem unarySpace_failsSafely (op : UnaryOperator) (source : SpaceId) :
    (Form.unarySpace op source).FailsSafely s := by
  cases op with
  | derivative =>
    exact .get_bind (.lift_bind fun sp => .get_bind (.lift_bind fun m => .guard
      (withDegree_failsSafely _ _ _ _)))
  | codifferential =>
    exact .get_bind (.lift_bind fun sp => .guard (withDegree_failsSafely _ _ _ _))
  | hodge =>
    exact .get_bind (.lift_bind fun sp => .get_bind (.lift_bind fun m =>
      withDegree_failsSafely _ _ _ _))
  | trace =>
    refine .get_bind (.lift_bind fun sp => .bind_leaving (Mesh.boundary_leavesSpaces _) ?_)
    intro r mid _
    cases r with
    | none => exact .of_leavesSpaces .lift
    | some b =>
      exact .get_bind (.lift_bind fun m => .guard (withDegree_failsSafely _ _ _ _))
  | timeDerivative => exact .pure

theorem wedge_failsSafely (left right : SpaceId) : (wedge left right).FailsSafely s :=
  .get_bind (.lift_bind fun _ => .get_bind (.lift_bind fun _ => .guard
    (.get_bind (.lift_bind fun _ => .guard (withDegree_failsSafely _ _ _ _)))))

end Space

/-! ## All spaces -/

theorem Arena.ext_get? {kind : EntityKind} {α : Type} {arena other : Arena kind α}
    (same : ∀ id, arena.get? id = other.get? id) : arena = other :=
  Arena.ext (List.ext_getElem? fun i => same ⟨i⟩)

namespace Session

variable {d n : Nat}

/-- The session with the degree `d` for the first `n` spaces. -/
def finiteUpTo (s : Session) (d n : Nat) : Session :=
  { s with spaces := ⟨s.spaces.entities.mapIdx fun i sp =>
      if i < n then { sp with degree := some d } else sp⟩ }

/-- No other degree than `d` is fixed for a space. -/
def Accepts (s : Session) (d : Nat) (space : SpaceId) : Prop :=
  ∀ sp, s.spaces.get? space = some sp → sp.degree = none ∨ sp.degree = some d

/-- A space is accepted, or it has another degree. -/
theorem accepts_or_other {space : SpaceId} {sp : Space}
    (found : s.spaces.get? space = some sp) :
    s.Accepts d space ∨ ∃ present, sp.degree = some present ∧ present ≠ d := by
  have decided (fits : sp.degree = none ∨ sp.degree = some d) : s.Accepts d space := by
    intro sp' found'
    cases found.symm.trans found'
    exact fits
  cases finite : sp.degree with
  | none => exact .inl (decided (.inl finite))
  | some present =>
    by_cases same : present = d
    · exact .inl (decided (.inr (same ▸ finite)))
    · exact .inr ⟨present, rfl, same⟩

/-- The first space with another degree than `d`. -/
structure FirstOther (s : Session) (d : Nat) (space : SpaceId) (sp : Space) (present : Nat) :
    Prop where
  found : s.spaces.get? space = some sp
  finite : sp.degree = some present
  differs : present ≠ d
  first : ∀ earlier : SpaceId, earlier.index < space.index → s.Accepts d earlier

theorem get?_finiteUpTo (space : SpaceId) :
    (s.finiteUpTo d n).spaces.get? space = (s.spaces.get? space).map fun sp =>
      if space.index < n then { sp with degree := some d } else sp := by
  simp [finiteUpTo, Arena.get?]

theorem finiteUpTo_zero : s.finiteUpTo d 0 = s := by
  have spaces : (s.finiteUpTo d 0).spaces = s.spaces :=
    Arena.ext_get? fun space => by simp [get?_finiteUpTo]
  exact congrArg (fun spaces => { s with spaces }) spaces

theorem get?_finiteUpTo_self {sp : Space} (found : s.spaces.get? ⟨n⟩ = some sp) :
    (s.finiteUpTo d n).spaces.get? ⟨n⟩ = some sp := by
  rw [get?_finiteUpTo, found, Option.map_some, if_neg (Nat.lt_irrefl n)]

/-- The next space joins those before it. -/
theorem setSpace_finiteUpTo {sp : Space} (found : s.spaces.get? ⟨n⟩ = some sp) :
    (s.finiteUpTo d n).setSpace ⟨n⟩ { sp with degree := some d } = s.finiteUpTo d (n + 1) := by
  have spaces : (s.finiteUpTo d n).spaces.set ⟨n⟩ { sp with degree := some d } =
      (s.finiteUpTo d (n + 1)).spaces := by
    refine Arena.ext_get? fun space => ?_
    rw [Arena.get?_set (get?_finiteUpTo_self found), get?_finiteUpTo, get?_finiteUpTo]
    by_cases next : space = ⟨n⟩
    · rw [if_pos next, next, found, Option.map_some, if_pos (Nat.lt_succ_self n)]
    · have other : space.index ≠ n := fun same => next (congrArg EntityId.mk same)
      rw [if_neg next]
      simp only [Nat.lt_succ_iff_lt_or_eq, other, or_false]
  exact congrArg (fun spaces => { s with spaces }) spaces

/-- Nothing changes for a space with the same degree. -/
theorem finiteUpTo_succ {sp : Space} (found : s.spaces.get? ⟨n⟩ = some sp)
    (same : sp.degree = some d) : s.finiteUpTo d (n + 1) = s.finiteUpTo d n := by
  rw [← setSpace_finiteUpTo found, ← same]
  have spaces : (s.finiteUpTo d n).spaces.set ⟨n⟩ sp = (s.finiteUpTo d n).spaces := by
    refine Arena.ext_get? fun space => ?_
    rw [Arena.get?_set (get?_finiteUpTo_self found)]
    split
    case isTrue next => rw [next, get?_finiteUpTo_self found]
    case isFalse => rfl
  exact congrArg (fun spaces => { s with spaces }) spaces

end Session

namespace Space

variable {d n : Nat} {sp : Space}

/-- A space that has no other degree joins those before it. -/
theorem setDegree_of_accepts (found : s.spaces.get? ⟨n⟩ = some sp) (accepts : s.Accepts d ⟨n⟩) :
    setDegree ⟨n⟩ d (s.finiteUpTo d n) = .ok () (s.finiteUpTo d (n + 1)) := by
  have present := Session.get?_finiteUpTo_self (d := d) found
  have fetched : (s.finiteUpTo d n).space ⟨n⟩ = .ok sp := Arena.fetch_eq_ok_iff.2 present
  rw [setDegree, get_bind, lift_bind_of_ok fetched]
  rcases accepts sp found with absent | same
  · rw [absent, ← Session.setSpace_finiteUpTo found]
    rfl
  · rw [same, Session.finiteUpTo_succ found same]
    exact congrFun (if_neg fun differs => differs rfl) _

/-- A space with another degree is left, and so are those before it. -/
theorem setDegree_of_other {present : Nat} (found : s.spaces.get? ⟨n⟩ = some sp)
    (finite : sp.degree = some present) (differs : present ≠ d) :
    setDegree ⟨n⟩ d (s.finiteUpTo d n) =
      .error (.rejected (.state (.degreeFixed sp.labels.lin present d))) (s.finiteUpTo d n) := by
  have held := Session.get?_finiteUpTo_self (d := d) found
  have fetched : (s.finiteUpTo d n).space ⟨n⟩ = .ok sp := Arena.fetch_eq_ok_iff.2 held
  rw [setDegree, get_bind, lift_bind_of_ok fetched, finite]
  exact congrFun (if_pos differs) _

/-- The loop from the space with number `n` on, when those before it are made finite: it goes
through all others, or breaks off at the first one with another degree. -/
theorem makeFinite_from (k : Nat) (whole : n + k = s.spaces.size) :
    ((∀ i, n ≤ i → s.Accepts d ⟨i⟩) ∧
      (List.range' n k).forM (fun i => setDegree ⟨i⟩ d) (s.finiteUpTo d n) =
        .ok () (s.finiteUpTo d s.spaces.size)) ∨
    ∃ j sp present, s.spaces.get? ⟨j⟩ = some sp ∧ sp.degree = some present ∧ present ≠ d ∧
      (∀ i, n ≤ i → i < j → s.Accepts d ⟨i⟩) ∧
      (List.range' n k).forM (fun i => setDegree ⟨i⟩ d) (s.finiteUpTo d n) =
        .error (.rejected (.state (.degreeFixed sp.labels.lin present d))) (s.finiteUpTo d j) := by
  induction k generalizing n with
  | zero =>
    obtain rfl : n = s.spaces.size := whole
    refine .inl ⟨fun i beyond sp found => ?_, rfl⟩
    have absent : s.spaces.get? ⟨i⟩ = none := Arena.get?_eq_none_iff.2 beyond
    rw [absent] at found
    cases found
  | succ k ih =>
    have inside : s.spaces.get? ⟨n⟩ ≠ none := by
      rw [Ne, Arena.get?_eq_none_iff]
      simp only
      omega
    obtain ⟨sp, found⟩ := Option.ne_none_iff_exists'.1 inside
    have run : (List.range' n (k + 1)).forM (fun i => setDegree ⟨i⟩ d) (s.finiteUpTo d n) =
        (setDegree ⟨n⟩ d >>= fun _ => (List.range' (n + 1) k).forM fun i => setDegree ⟨i⟩ d :
          Derive Unit) (s.finiteUpTo d n) := rfl
    rcases Session.accepts_or_other (d := d) found with accepts | ⟨present, finite, differs⟩
    · have first := setDegree_of_accepts found accepts
      rw [run, bind_of_ok first]
      have split {i : Nat} (from_ : n ≤ i) : i = n ∨ n + 1 ≤ i := by omega
      rcases ih (n := n + 1) (by omega) with
        ⟨others, rest⟩ | ⟨j, other, present, foundOther, finite, differs, others, rest⟩
      · refine .inl ⟨fun i from_ => ?_, rest⟩
        rcases split from_ with rfl | later
        · exact accepts
        · exact others i later
      · refine .inr ⟨j, other, present, foundOther, finite, differs, fun i from_ before => ?_, rest⟩
        rcases split from_ with rfl | later
        · exact accepts
        · exact others i later before
    · refine .inr ⟨n, sp, present, found, finite, differs, fun i from_ before => by omega, ?_⟩
      rw [run]
      simp only [Bind.bind, EStateM.bind, setDegree_of_other found finite differs]

/-- All spaces are made finite, or those before the first one with another degree. -/
theorem makeFinite_cases (s : Session) (d : Nat) :
    (s.FiniteAt d ∧ makeFinite d s = .ok () (s.finiteUpTo d s.spaces.size)) ∨
    ∃ space sp present, s.FirstOther d space sp present ∧
      makeFinite d s =
        .error (.rejected (.state (.degreeFixed sp.labels.lin present d)))
          (s.finiteUpTo d space.index) := by
  have loop : makeFinite d s =
      (List.range' 0 s.spaces.size).forM (fun i => setDegree ⟨i⟩ d) (s.finiteUpTo d 0) := by
    rw [Session.finiteUpTo_zero, ← List.range_eq_range']
    rfl
  rw [loop]
  rcases makeFinite_from (s := s) (d := d) (n := 0) s.spaces.size (Nat.zero_add _) with
    ⟨all, run⟩ | ⟨j, sp, present, found, finite, differs, first, run⟩
  · exact .inl ⟨fun space => all space.index (Nat.zero_le _), run⟩
  · exact .inr ⟨⟨j⟩, sp, present, ⟨found, finite, differs,
      fun earlier before => first earlier.index (Nat.zero_le _) before⟩, run⟩

end Space

/-! ## What a failure leaves behind -/

namespace Session

variable {d n : Nat}

/-- Making the first spaces finite changes nothing exactly if they are finite with that degree
already. -/
theorem finiteUpTo_spaces_eq_iff : (s.finiteUpTo d n).spaces = s.spaces ↔
    ∀ (space : SpaceId) sp, space.index < n → s.spaces.get? space = some sp →
      sp.degree = some d := by
  constructor
  · intro same space sp before found
    have changed := get?_finiteUpTo (s := s) (d := d) (n := n) space
    rw [same, found, Option.map_some, if_pos before] at changed
    exact congrArg Space.degree (Option.some.inj changed)
  · intro finite
    refine Arena.ext_get? fun space => ?_
    rw [get?_finiteUpTo]
    cases found : s.spaces.get? space with
    | none => rfl
    | some sp =>
      rw [Option.map_some]
      split
      case isTrue before => rw [← finite space sp before found]
      case isFalse => rfl

/-- A request that sets the degree of one space or asks for the space of an operator leaves all
spaces alone if it fails. Making all spaces finite succeeds, with the degree for every space, if no
space has another degree. Otherwise it fails for the first space that has another one, exactly
those before it have the degree from then on, and nothing changes only if they had it already. -/
theorem degrees_after_failure (s : Session) :
    (∀ space d, (Space.setDegree space d).FailsSafely s) ∧
    (∀ op source, (Form.unarySpace op source).FailsSafely s) ∧
    (∀ left right, (Space.wedge left right).FailsSafely s) ∧
    ∀ d,
      (s.FiniteAt d ∧ ∃ s', Space.makeFinite d s = .ok () s' ∧
        ∀ id sp, s.spaces.get? id = some sp →
          s'.spaces.get? id = some { sp with degree := some d }) ∨
      ∃ space other present s', s.FirstOther d space other present ∧
        Space.makeFinite d s =
          .error (.rejected (.state (.degreeFixed other.labels.lin present d))) s' ∧
        (∀ id sp, s.spaces.get? id = some sp → s'.spaces.get? id =
          some (if id.index < space.index then { sp with degree := some d } else sp)) ∧
        (s'.spaces = s.spaces ↔ ∀ (id : SpaceId) sp, id.index < space.index →
          s.spaces.get? id = some sp → sp.degree = some d) := by
  refine ⟨Space.setDegree_failsSafely, Space.unarySpace_failsSafely, Space.wedge_failsSafely,
    fun d => ?_⟩
  rcases Space.makeFinite_cases s d with ⟨finite, run⟩ | ⟨space, other, present, first, run⟩
  · refine .inl ⟨finite, _, run, fun id sp found => ?_⟩
    have inside : id.index < s.spaces.size := (List.getElem?_eq_some_iff.1 found).1
    rw [get?_finiteUpTo, found, Option.map_some, if_pos inside]
  · refine .inr ⟨space, other, present, _, first, run, fun id sp found => ?_,
      finiteUpTo_spaces_eq_iff⟩
    rw [get?_finiteUpTo, found, Option.map_some]

/-- The second of two spaces has the degree 2. Making both finite with the degree 1 fails, and the
first one is finite with that degree from then on. -/
theorem makeFinite_breaks_off : ¬ ∀ (s s' : Session) (d : Nat) (failure : Failure),
    Reachable {} s → Space.makeFinite d s = .error failure s' →
      ∀ id, (s'.spaces.get? id).map Space.degree = (s.spaces.get? id).map Space.degree := by
  intro safe
  obtain ⟨s, reachable, absent, broken⟩ : ∃ s, Reachable {} s ∧
      (s.spaces.get? ⟨0⟩).map Space.degree = some none ∧
      (match Space.makeFinite 1 s with
        | .ok _ _ => false
        | .error _ s' => decide ((s'.spaces.get? ⟨0⟩).map Space.degree = some (some 1))) = true :=
    ⟨Request.performAll {} [.manifold 1, .mesh ⟨0⟩, .space ⟨0⟩ 0 .outer, .space ⟨0⟩ 1 .outer,
      .degree ⟨1⟩ 2], .performAll {} _, by decide +kernel⟩
  cases run : Space.makeFinite 1 s with
  | ok u s' => simp [run] at broken
  | error failure s' =>
    rw [run] at broken
    have present := of_decide_eq_true broken
    rw [safe s s' 1 failure reachable run ⟨0⟩, absent] at present
    cases present

end Session

end Variational
