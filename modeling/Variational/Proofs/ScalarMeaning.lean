import Mathlib
import Variational.Proofs.ScalarLabels

/-!
# What derived scalars mean

Every scalar of a session has one value under given values of the abstract root
scalars, and the sums and quotients that arithmetic has given so far have the values
of sums and quotients. For quotients this takes that no sum is divided and that
nothing but a root scalar divides, since the labels that derived scalars are known by
do not group their operands. The main statement is `arithmetic_valued`.
-/

namespace Variational

open Derive

variable {s s' : Session}

/-! ## Valid labels -/

namespace Labels

variable {labels : Labels} {kind : EntityKind}

theorem validate_eq_ok : labels.validate kind = .ok () ↔
    labels.sym.toList.all Text.isBlank = false ∧ labels.lin.toList ≠ [] ∧
      ∀ c ∈ labels.lin.toList, c ∉ reservedCharacters := by
  have unreserved : labels.lin.toList.find? (· ∈ reservedCharacters) = none ↔
      ∀ c ∈ labels.lin.toList, c ∉ reservedCharacters := by
    simp only [List.find?_eq_none, decide_eq_true_eq]
  rw [← unreserved, validate]
  split
  · simp [*]
  · split
    · simp [*]
    · cases labels.lin.toList.find? (· ∈ reservedCharacters) <;> simp [*]

/-- No reserved character is in the linguistic label of valid labels. -/
theorem not_mem_of_validate (valid : labels.validate kind = .ok ()) {c : Char}
    (reserved : c ∈ reservedCharacters) : c ∉ labels.lin.toList :=
  fun member => (validate_eq_ok.1 valid).2.2 c member reserved

/-- Numbered variants of valid labels are valid. -/
theorem validate_numbered (valid : labels.validate kind = .ok ()) (n : Nat) :
    (labels.numbered n).validate kind = .ok () := by
  by_cases zero : n = 0
  · rwa [numbered, if_pos zero]
  obtain ⟨-, nonempty, plain⟩ := validate_eq_ok.1 valid
  have sym : '_' ∈ (labels.numbered n).sym.toList := by
    simp [numberedSym, zero, toString]
  have lin : (labels.numbered n).lin.toList = labels.lin.toList ++ Nat.toDigits 10 n := by
    simp [numbered, zero, toString]
  have unreserved : ∀ c ∈ reservedCharacters, c.isDigit = false := by simp [reservedCharacters]
  refine validate_eq_ok.2 ⟨List.all_eq_false.2 ⟨'_', sym, by decide⟩, ?_, ?_⟩
  · simp [lin, nonempty]
  · intro c member reserved
    rw [lin, List.mem_append] at member
    rcases member with old | digit
    · exact plain c old reserved
    · have isDigit := Nat.isDigit_of_mem_toDigits (by decide) (by decide) digit
      simp [unreserved c reserved] at isDigit

end Labels

namespace Decimal

theorem brace_not_mem_toDigits (n : Nat) : '}' ∉ Nat.toDigits 10 n := fun member =>
  absurd (Nat.isDigit_of_mem_toDigits (by decide) (by decide) member) (by decide)

theorem brace_not_mem_positional (d : Nat) (p : Int) : '}' ∉ (positional d p).toList := by
  have digits := brace_not_mem_toDigits d
  have zeros : ∀ n, '}' ∉ List.replicate n '0' := fun n member =>
    absurd (List.eq_of_mem_replicate member) (by decide)
  rw [positional]
  dsimp only
  split
  · simp [digits, zeros]
  · split
    · simp only [String.toList_ofList, List.mem_append, List.mem_cons, not_or]
      exact ⟨fun member => digits (List.mem_of_mem_take member), by decide,
        fun member => digits (List.mem_of_mem_drop member)⟩
    · simp [digits, zeros]

/-- The text of a number has no brace. -/
theorem brace_not_mem_write (x : Float) : '}' ∉ (write x).toList := by
  have mark : ∀ sign, '}' ∉ (signMark sign).toList := by
    intro sign
    cases sign <;> decide
  rw [write]
  cases x.toModel.unpack with
  | notANumber => decide
  | infinity sign | zero sign => simp [mark]
  | finite sign m e positive => simp [mark, brace_not_mem_positional]

end Decimal

theorem Scalar.brace_not_mem_numberLin (x : Float) : '}' ∉ (numberLin x).toList := by
  rw [numberLin]
  split
  · decide
  · exact Decimal.brace_not_mem_write x

/-! ## Numbers -/

namespace Scalar

open Float.Model in
/-- Doubles that compare equal are the same up to the sign of zero. -/
theorem unpack_of_beq {x y : Float} (same : (x == y) = true) :
    x.toModel.unpack = y.toModel.unpack ∨
      ∃ sign sign', x.toModel.unpack = .zero sign ∧ y.toModel.unpack = .zero sign' := by
  have equal : x.toModel.unpack.beq y.toModel.unpack = true := same
  rw [UnpackedFloat.beq, beq_iff_eq] at equal
  generalize x.toModel.unpack = a at equal ⊢
  generalize y.toModel.unpack = b at equal ⊢
  cases a with
  | notANumber => simp [UnpackedFloat.compare] at equal
  | infinity sign =>
    cases b with
    | infinity sign' =>
      cases sign <;> cases sign' <;> first | exact Or.inl rfl | exact absurd equal (by decide)
    | finite sign' => cases sign <;> cases sign' <;> simp [UnpackedFloat.compare] at equal
    | _ => cases sign <;> simp [UnpackedFloat.compare] at equal
  | zero sign =>
    cases b with
    | zero sign' => exact Or.inr ⟨_, _, rfl, rfl⟩
    | notANumber => simp [UnpackedFloat.compare] at equal
    | infinity sign' | finite sign' => cases sign' <;> simp [UnpackedFloat.compare] at equal
  | finite sign m e =>
    cases b with
    | notANumber => cases sign <;> simp [UnpackedFloat.compare] at equal
    | infinity sign' | zero sign' =>
      cases sign <;> cases sign' <;> simp [UnpackedFloat.compare] at equal
    | finite sign' m' e' =>
      cases sign <;> cases sign' <;>
        simp [UnpackedFloat.compare, Ordering.then_eq_eq] at equal <;> simp [equal]

/-- The rational number of a double; zero if it is not finite. -/
def rational (x : Float) : ℚ :=
  match x.toModel.unpack with
  | .finite sign m e _ => (sign.apply (m : Int) : ℚ) * 2 ^ e
  | _ => 0

/-- Doubles that compare equal are one number. -/
theorem rational_eq_of_beq {x y : Float} (same : (x == y) = true) : rational x = rational y := by
  rcases unpack_of_beq same with same | ⟨sign, sign', zero, zero'⟩
  · rw [rational, rational, same]
  · rw [rational, rational, zero, zero']

end Scalar

/-! ## Spelled scalars -/

namespace Session

/-- A root scalar is known by its label, which has no brace. The label of a derived scalar spells
an expression, and the scalar is not real. -/
def ScalarSound (s : Session) (id : ScalarId) (c : Scalar) : Prop :=
  match c.pureLin with
  | some lin => '}' ∉ lin.toList ∧ c.lin = Scalar.rootLin lin ∧
      s.scalarLabels.byLin? lin = some id
  | none => c.value = none ∧ ∃ p : ScalarSpelling, p.Plain ∧ c.lin.toList = p.text

theorem ScalarNamed.brace_not_mem {labels : Labels} {value : Option Float}
    (named : ScalarNamed labels value) : '}' ∉ labels.lin.toList := by
  cases value with
  | some x =>
    obtain ⟨-, rfl⟩ := named
    exact Scalar.brace_not_mem_numberLin x
  | none =>
    obtain ⟨valid, -, -⟩ := named
    exact Labels.not_mem_of_validate valid (by decide)

namespace ScalarSound

variable {id : ScalarId} {c : Scalar}

theorem of_root {lin : String} (root : c.pureLin = some lin) :
    s.ScalarSound id c ↔ '}' ∉ lin.toList ∧ c.lin = Scalar.rootLin lin ∧
      s.scalarLabels.byLin? lin = some id := by
  rw [ScalarSound, root]

theorem of_derived (derived : c.pureLin = none) :
    s.ScalarSound id c ↔
      c.value = none ∧ ∃ p : ScalarSpelling, p.Plain ∧ c.lin.toList = p.text := by
  rw [ScalarSound, derived]

/-- The label of every scalar spells an expression. -/
theorem spelled (sound : s.ScalarSound id c) :
    ∃ p : ScalarSpelling, p.Plain ∧ c.lin.toList = p.text ∧
      (c.isRoot = true → p.rest = []) := by
  cases root : c.pureLin with
  | none =>
    obtain ⟨-, p, plain, text⟩ := (of_derived root).1 sound
    exact ⟨p, plain, text, fun isRoot => by simp [Scalar.isRoot, root] at isRoot⟩
  | some lin =>
    obtain ⟨plain, text, -⟩ := (of_root root).1 sound
    refine ⟨⟨lin, []⟩, ⟨plain, by simp⟩, ?_, fun _ => rfl⟩
    simp [text, ScalarSpelling.text, ScalarSpelling.textOf]

theorem steps (sound : s.ScalarSound id c) (steps : s.Steps s') : s'.ScalarSound id c := by
  cases root : c.pureLin with
  | none => exact (of_derived root).2 ((of_derived root).1 sound)
  | some lin =>
    obtain ⟨plain, text, known⟩ := (of_root root).1 sound
    exact (of_root root).2 ⟨plain, text, steps.byLin?_scalar known⟩

end ScalarSound

/-- All scalars of the session are sound. -/
def ScalarsSound (s : Session) : Prop :=
  ∀ id c, s.scalars.get? id = some c → s.ScalarSound id c

theorem ScalarComposed.joined {labels : Labels} (composed : s.ScalarComposed labels)
    (default : s.settings = {}) (sound : s.ScalarsSound) :
    ∃ (p q : ScalarSpelling) (op : ScalarOperator), p.Plain ∧ q.Plain ∧
      labels.lin.toList = (p.joined op q).text := by
  obtain ⟨left, right, a, b, foundLeft, foundRight, -, named⟩ := composed
  obtain ⟨p, plain, text, -⟩ := (sound left a foundLeft).spelled
  obtain ⟨q, plain', text', -⟩ := (sound right b foundRight).spelled
  rw [default] at named
  rcases named with rfl | rfl
  · refine ⟨p, q, .sum, plain, plain', ?_⟩
    simp [ScalarSpelling.text_joined, text, text', ScalarOperator.glyph]
  · refine ⟨p, q, .quotient, plain, plain', ?_⟩
    simp [ScalarSpelling.text_joined, text, text', ScalarOperator.glyph]

theorem ScalarComposed.spelled {labels : Labels} (composed : s.ScalarComposed labels)
    (default : s.settings = {}) (sound : s.ScalarsSound) :
    ∃ p : ScalarSpelling, p.Plain ∧ labels.lin.toList = p.text := by
  obtain ⟨p, q, op, plain, plain', text⟩ := composed.joined default sound
  exact ⟨p.joined op q, plain.joined plain' op, text⟩

theorem Step.scalarsSound (step : s.Step s') (default : s.settings = {})
    (sound : s.ScalarsSound) : s'.ScalarsSound := by
  intro id c found
  have old : s.scalars.get? id = some c → s'.ScalarSound id c := fun known =>
    (sound id c known).steps (.single step)
  cases step with
  | rootScalar named available =>
    rcases Arena.get?_push_cases found with known | ⟨rfl, rfl⟩
    · exact old known
    · refine (ScalarSound.of_root rfl).2 ⟨named.brace_not_mem, ?_,
        LabelIndex.byLin?_insert available⟩
      rw [Session.rootScalar, default]
      rfl
  | derivedScalar composed =>
    rcases Arena.get?_push_cases found with known | ⟨rfl, rfl⟩
    · exact old known
    · exact (ScalarSound.of_derived rfl).2 ⟨rfl, composed.spelled default sound⟩
  | _ => exact old found

theorem Steps.scalarsSound (steps : (Session.new {}).Steps s) : s.ScalarsSound := by
  induction steps with
  | refl =>
    intro id c found
    cases found
  | tail earlier step ih => exact step.scalarsSound (Steps.extends earlier).settings ih

theorem ScalarsSound.isRoot_of_real (sound : s.ScalarsSound) {id : ScalarId} {c : Scalar}
    (found : s.scalars.get? id = some c) {x : Float} (real : c.value = some x) :
    c.isRoot = true := by
  cases named : c.pureLin with
  | some lin => simp [Scalar.isRoot, named]
  | none =>
    have unreal := ((ScalarSound.of_derived named).1 (sound id c found)).1
    simp [real] at unreal

/-! ## Values -/

/-- The session has a scalar with a property. -/
def ScalarHas (s : Session) (id : ScalarId) (P : Scalar → Prop) : Prop :=
  ∃ c ∈ s.scalars.get? id, P c

instance (s : Session) (id : ScalarId) (P : Scalar → Prop) [DecidablePred P] :
    Decidable (s.ScalarHas id P) :=
  inferInstanceAs (Decidable (∃ c ∈ s.scalars.get? id, P c))

theorem Extends.scalarHas (later : s.Extends s') {id : ScalarId} {P : Scalar → Prop}
    (has : s.ScalarHas id P) : s'.ScalarHas id P := by
  obtain ⟨c, found, holds⟩ := has
  exact ⟨c, later.scalars found, holds⟩

theorem ScalarHas.of_found {id : ScalarId} {P : Scalar → Prop} (has : s.ScalarHas id P)
    {c : Scalar} (found : s.scalars.get? id = some c) : P c := by
  obtain ⟨c', found', holds⟩ := has
  cases found.symm.trans found'
  exact holds

/-- The durations of intervals are abstract scalars. -/
theorem Reachable.duration_abstract {settings : Settings} (reachable : Reachable settings s)
    {i : TimeIntervalId} {t : TimeInterval} (found : s.timeIntervals.get? i = some t) :
    s.ScalarHas t.duration (·.value = none) := by
  suffices abstract : ∀ i t, s.timeIntervals.get? i = some t →
      s.ScalarHas t.duration (·.value = none) from abstract i t found
  refine reachable.invariant (P := fun s => ∀ i t, s.timeIntervals.get? i = some t →
    s.ScalarHas t.duration (·.value = none)) (fun _ _ found => (nomatch found)) ?_
  intro s s' abstract step i t found
  have later := step.extends
  cases step with
  | timeInterval _ _ _ _ _ _ _ foundDuration value =>
    rcases Arena.get?_push_cases found with old | ⟨-, rfl⟩
    · exact abstract i t old
    · exact ⟨_, foundDuration, value⟩
  | _ => exact later.scalarHas (abstract i t found)

/-- Values of the scalars that agree with the values of the abstract root scalars, and with the
numbers of the real scalars. -/
structure Values (s : Session) (ρ v : ScalarId → ℚ) : Prop where
  abstract : ∀ id, s.ScalarHas id (fun c => c.isRoot = true ∧ c.isReal = false) → v id = ρ id
  real : ∀ id c x, s.scalars.get? id = some c → c.value = some x → v id = Scalar.rational x

/-- The value of the root scalar with a linguistic label. -/
def rootValue (s : Session) (ρ : ScalarId → ℚ) (lin : String) : ℚ :=
  match s.scalarLabels.byLin? lin with
  | none => 0
  | some id => ((s.scalars.get? id).bind Scalar.value).elim (ρ id) Scalar.rational

/-- Every scalar has the value that its label spells. -/
def Evaluates (s : Session) (ρ v : ScalarId → ℚ) : Prop :=
  ∀ id c (p : ScalarSpelling), s.scalars.get? id = some c → p.Plain → c.lin.toList = p.text →
    v id = p.value (s.rootValue ρ)

/-- Labels spell one expression, so every scalar can be given the value of its own. -/
theorem exists_evaluates (s : Session) (ρ : ScalarId → ℚ) : ∃ v, s.Evaluates ρ v := by
  have each : ∀ id, ∃ x, ∀ c (p : ScalarSpelling), s.scalars.get? id = some c → p.Plain →
      c.lin.toList = p.text → x = p.value (s.rootValue ρ) := by
    intro id
    by_cases spelled : ∃ c, ∃ p : ScalarSpelling, s.scalars.get? id = some c ∧ p.Plain ∧
        c.lin.toList = p.text
    · obtain ⟨c, p, found, plain, text⟩ := spelled
      refine ⟨p.value (s.rootValue ρ), fun c' q found' plain' text' => ?_⟩
      cases found.symm.trans found'
      rw [ScalarSpelling.text_inj plain plain' (text.symm.trans text')]
    · exact ⟨0, fun c p found plain text => absurd ⟨c, p, found, plain, text⟩ spelled⟩
  choose v evaluates using each
  exact ⟨v, evaluates⟩

namespace Evaluates

variable {ρ v : ScalarId → ℚ}

theorem root (evaluates : s.Evaluates ρ v) (sound : s.ScalarsSound) {id : ScalarId} {c : Scalar}
    (found : s.scalars.get? id = some c) (root : c.isRoot = true) :
    v id = c.value.elim (ρ id) Scalar.rational := by
  obtain ⟨lin, named⟩ := Option.isSome_iff_exists.1 root
  obtain ⟨plain, text, known⟩ := (ScalarSound.of_root named).1 (sound id c found)
  rw [evaluates id c ⟨lin, []⟩ found ⟨plain, by simp⟩
    (by simp [text, ScalarSpelling.text, ScalarSpelling.textOf])]
  simp [ScalarSpelling.value, ScalarSpelling.valueFrom, rootValue, known, found]

theorem values (evaluates : s.Evaluates ρ v) (sound : s.ScalarsSound) : s.Values ρ v where
  abstract id root := by
    obtain ⟨c, found, root, unreal⟩ := root
    rw [Scalar.isReal, Option.isSome_eq_false_iff, Option.isNone_iff_eq_none] at unreal
    rw [evaluates.root sound found root, unreal]
    rfl
  real id c x found real := by
    rw [evaluates.root sound found (sound.isRoot_of_real found real), real]
    rfl

end Evaluates

end Session

/-! ## Operands -/

namespace ScalarOperand

/-- The value of an operand. A number is its own value. -/
def value (v : ScalarId → ℚ) : ScalarOperand → ℚ
  | .number x => Scalar.rational x
  | .scalar id => v id

/-- An operand that does not stand for a number. -/
def Unreal (s : Session) : ScalarOperand → Prop
  | .number _ => False
  | .scalar id => s.ScalarHas id (·.isReal = false)

/-- A number or a root scalar. -/
def Root (s : Session) : ScalarOperand → Prop
  | .number _ => True
  | .scalar id => s.ScalarHas id (·.isRoot = true)

/-- A number, or a scalar in the label of which there is no sum. -/
def Unsummed (s : Session) : ScalarOperand → Prop
  | .number _ => True
  | .scalar id => s.ScalarHas id fun c => ¬ ScalarOperator.sum.glyph.toList <:+: c.lin.toList

instance (s : Session) (operand : ScalarOperand) : Decidable (operand.Unreal s) :=
  match operand with
  | .number _ => inferInstanceAs (Decidable False)
  | .scalar id => inferInstanceAs (Decidable (s.ScalarHas id (·.isReal = false)))

instance (s : Session) (operand : ScalarOperand) : Decidable (operand.Root s) :=
  match operand with
  | .number _ => inferInstanceAs (Decidable True)
  | .scalar id => inferInstanceAs (Decidable (s.ScalarHas id (·.isRoot = true)))

instance (s : Session) (operand : ScalarOperand) : Decidable (operand.Unsummed s) :=
  match operand with
  | .number _ => inferInstanceAs (Decidable True)
  | .scalar id => inferInstanceAs (Decidable (s.ScalarHas id fun c =>
      ¬ ScalarOperator.sum.glyph.toList <:+: c.lin.toList))

end ScalarOperand

namespace Scalar

variable {operand : ScalarOperand} {id : ScalarId} {c : Scalar} {x : Float} {labels : Labels}

theorem ofNumber_spec (run : ofNumber x s = .ok id s') :
    ∃ c y, s'.scalars.get? id = some c ∧ c.value = some y ∧ rational y = rational x := by
  rw [ofNumber, guard_eq_ok] at run
  obtain ⟨-, -, -, c, found, value⟩ := register_spec run.2
  cases real : c.value with
  | none =>
    rw [real] at value
    rcases value with absent | absent <;> cases absent
  | some y =>
    rw [real] at value
    rcases value with same | same
    · cases same
      exact ⟨c, x, found, real, rfl⟩
    · exact ⟨c, y, found, real, rational_eq_of_beq same⟩

theorem derived_spec (run : derived labels s = .ok id s') :
    ∃ c, s'.scalars.get? id = some c ∧ c.lin = labels.lin := by
  rw [derived, get_bind] at run
  cases known : s.scalars.find? fun c => c.pureLin.isNone && c.lin == labels.lin with
  | some existing =>
    rw [known] at run
    obtain ⟨rfl, rfl⟩ := pure_eq_ok.1 run
    obtain ⟨c, found, same⟩ := Arena.find?_eq_some known
    simp only [Bool.and_eq_true, beq_iff_eq] at same
    exact ⟨c, found, same.2⟩
  | none =>
    simp only [known, bind_eq_ok, set_eq_ok, pure_eq_ok] at run
    obtain ⟨_, _, rfl, rfl, rfl⟩ := run
    exact ⟨_, Arena.get?_push_nextId, rfl⟩

/-- Arithmetic on two scalars computes with their numbers, or composes their labels. -/
theorem combined_spec {a b : Scalar} {real : Float → Float → Derive ScalarId}
    (composed : a.value = none ∨ b.value = none → s.ScalarComposed labels)
    (grows : ∀ x y, (real x y).Grows s)
    (run : (match a.value, b.value with
      | some x, some y => real x y
      | _, _ => derived labels) s = .ok id s') :
    s.Steps s' ∧ (a.value = none ∨ b.value = none →
      ∃ c, s'.scalars.get? id = some c ∧ c.lin = labels.lin) := by
  cases left : a.value with
  | none =>
    rw [left] at run
    exact ⟨(derived_grows (composed (Or.inl left))).steps run, fun _ => derived_spec run⟩
  | some x =>
    cases right : b.value with
    | none =>
      rw [left, right] at run
      exact ⟨(derived_grows (composed (Or.inr right))).steps run, fun _ => derived_spec run⟩
    | some y =>
      rw [left, right] at run
      exact ⟨(grows x y).steps run, by simp⟩

theorem operands_spec {lhs rhs : ScalarOperand}
    {combine : Session → Scalar → Scalar → Derive ScalarId}
    (run : (do
      let left ← ofOperand lhs
      let right ← ofOperand rhs
      let s ← get
      let a ← s.scalar left
      let b ← s.scalar right
      combine s a b : Derive ScalarId) s = .ok id s') :
    ∃ left mid right last a b, ofOperand lhs s = .ok left mid ∧
      ofOperand rhs mid = .ok right last ∧ last.settings = s.settings ∧
      last.scalars.get? left = some a ∧ last.scalars.get? right = some b ∧
      combine last a b last = .ok id s' := by
  simp only [bind_eq_ok, get_eq_ok, lift_eq_ok] at run
  obtain ⟨left, mid, first, right, last, second, _, _, ⟨rfl, rfl⟩, a, _, ⟨foundLeft, rfl⟩, b, _,
    ⟨foundRight, rfl⟩, run⟩ := run
  have extended : s.Extends last :=
    ((ofOperand_grows lhs).extends first).trans ((ofOperand_grows rhs).extends second)
  exact ⟨left, mid, right, last, a, b, first, second, extended.settings,
    Arena.fetch_eq_ok_iff.1 foundLeft, Arena.fetch_eq_ok_iff.1 foundRight, run⟩

section Operand

variable {t : Session} (run : ofOperand operand s = .ok id s') (later : s'.Extends t)

include run later

theorem ofOperand_value {ρ v : ScalarId → ℚ} (values : t.Values ρ v) :
    v id = operand.value v := by
  cases operand with
  | number x =>
    obtain ⟨c, y, found, real, same⟩ := ofNumber_spec run
    rw [values.real id c y (later.scalars found) real, same]
    rfl
  | scalar i =>
    obtain ⟨rfl, rfl⟩ := pure_eq_ok.1 run
    rfl

theorem ofOperand_unreal (unreal : operand.Unreal t) (found : t.scalars.get? id = some c) :
    c.value = none := by
  cases operand with
  | number x => exact unreal.elim
  | scalar i =>
    obtain ⟨rfl, rfl⟩ := pure_eq_ok.1 run
    simpa [isReal] using unreal.of_found found

theorem ofOperand_root (sound : t.ScalarsSound) (root : operand.Root t)
    (found : t.scalars.get? id = some c) : c.isRoot = true := by
  cases operand with
  | number x =>
    obtain ⟨c', y, found', real, -⟩ := ofNumber_spec run
    cases found.symm.trans (later.scalars found')
    exact sound.isRoot_of_real found real
  | scalar i =>
    obtain ⟨rfl, rfl⟩ := pure_eq_ok.1 run
    exact root.of_found found

theorem ofOperand_unsummed (sound : t.ScalarsSound) (unsummed : operand.Unsummed t)
    (found : t.scalars.get? id = some c) {p : ScalarSpelling} (text : c.lin.toList = p.text)
    (root : c.isRoot = true → p.rest = []) : ∀ x ∈ p.rest, x.1 = .quotient := by
  cases operand with
  | number x =>
    rw [root (ofOperand_root run later sound trivial found)]
    simp
  | scalar i =>
    obtain ⟨rfl, rfl⟩ := pure_eq_ok.1 run
    exact ScalarSpelling.unsummed_of_text (text ▸ unsummed.of_found found)

end Operand

end Scalar

/-! ## Arithmetic -/

namespace ScalarOperator

/-- Carries an operation on two operands out. -/
def request : ScalarOperator → ScalarOperand → ScalarOperand → Derive ScalarId
  | .sum => Scalar.add
  | .quotient => Scalar.div

/-- The operands are not grouped in the label of the result, so a quotient is shown by it only if
no sum is divided and nothing but a root scalar divides. -/
def Shown (s : Session) : ScalarOperator → ScalarOperand → ScalarOperand → Prop
  | .sum, _, _ => True
  | .quotient, lhs, rhs => lhs.Unsummed s ∧ rhs.Root s

instance (s : Session) (op : ScalarOperator) (lhs rhs : ScalarOperand) :
    Decidable (op.Shown s lhs rhs) :=
  match op with
  | .sum => inferInstanceAs (Decidable True)
  | .quotient => inferInstanceAs (Decidable (lhs.Unsummed s ∧ rhs.Root s))

variable {op : ScalarOperator} {lhs rhs : ScalarOperand} {id : ScalarId}

/-- What an operation finds for its operands, and the label of what it gives. -/
theorem request_spec (default : s.settings = {}) (run : op.request lhs rhs s = .ok id s') :
    ∃ left mid right last a b, Scalar.ofOperand lhs s = .ok left mid ∧
      Scalar.ofOperand rhs mid = .ok right last ∧ last.Steps s' ∧
      last.scalars.get? left = some a ∧ last.scalars.get? right = some b ∧
      (a.value = none ∨ b.value = none →
        ∃ c, s'.scalars.get? id = some c ∧ c.lin = a.lin ++ op.glyph ++ b.lin) := by
  cases op with
  | sum =>
    obtain ⟨left, mid, right, last, a, b, first, second, settings, foundLeft, foundRight, run⟩ :=
      Scalar.operands_spec run
    obtain ⟨steps, composed⟩ := Scalar.combined_spec
      (fun unreal => ⟨left, right, a, b, foundLeft, foundRight, unreal, Or.inl rfl⟩)
      (fun x y => Scalar.ofNumber_grows (x + y)) run
    rw [settings, default] at composed
    exact ⟨left, mid, right, last, a, b, first, second, steps, foundLeft, foundRight, composed⟩
  | quotient =>
    obtain ⟨left, mid, right, last, a, b, first, second, settings, foundLeft, foundRight, run⟩ :=
      Scalar.operands_spec run
    obtain ⟨steps, composed⟩ := Scalar.combined_spec
      (fun unreal => ⟨left, right, a, b, foundLeft, foundRight, unreal, Or.inr rfl⟩)
      (fun x y => .guard (fun _ => Scalar.ofNumber_grows (x / y)) (by simp)) run
    rw [settings, default] at composed
    exact ⟨left, mid, right, last, a, b, first, second, steps, foundLeft, foundRight, composed⟩

/-- The operation as a request. -/
def toRequest : ScalarOperator → ScalarOperand → ScalarOperand → Request
  | .sum => .scalarSum
  | .quotient => .scalarQuotient

theorem perform_toRequest (op : ScalarOperator) (lhs rhs : ScalarOperand) :
    (op.toRequest lhs rhs).perform = discard (op.request lhs rhs) := by
  cases op <;> rfl

end ScalarOperator

namespace Session

/-- An operation on two operands has given a scalar in the course of the session. -/
def Gave (s : Session) (op : ScalarOperator) (lhs rhs : ScalarOperand) (id : ScalarId) : Prop :=
  ∃ before after, (Session.new {}).Steps before ∧ op.request lhs rhs before = .ok id after ∧
    after.Steps s

variable {op : ScalarOperator} {lhs rhs : ScalarOperand} {id : ScalarId}

/-- A request that succeeds among others gives its scalar in the session that they lead to. -/
theorem Gave.of_performAll {requests : List Request} (n : Nat)
    (present : requests[n]? = some (op.toRequest lhs rhs))
    (gives : (match op.request lhs rhs (Request.performAll {} (requests.take n)) with
      | .ok given _ => decide (given = id)
      | .error _ _ => false) = true) : (Request.performAll {} requests).Gave op lhs rhs id := by
  cases run : op.request lhs rhs (Request.performAll {} (requests.take n)) with
  | error failure last => simp [run] at gives
  | ok given last =>
    rw [run] at gives
    cases of_decide_eq_true gives
    refine ⟨_, last, (Reachable.performAll {} (requests.take n)).steps, run, ?_⟩
    have done : (discard (op.request lhs rhs) : Derive Unit)
        (Request.performAll {} (requests.take n)) = .ok () last := by
      simp [Functor.discard, Functor.mapConst, EStateM.map, run]
    obtain ⟨held, same⟩ := List.getElem?_eq_some_iff.1 present
    have whole : Request.performAll {} requests = last.afterAll (requests.drop (n + 1)) :=
      calc Request.performAll {} requests
        _ = (Request.performAll {} (requests.take n)).afterAll (requests.drop n) := by
          rw [Session.afterAll, Request.performAll, Request.performAll, ← List.foldl_append,
            List.take_append_drop]
        _ = last.afterAll (requests.drop (n + 1)) := by
          rw [List.drop_eq_getElem_cons held, same, Session.afterAll, List.foldl_cons,
            ScalarOperator.perform_toRequest, Derive.after_of_ok done]
          rfl
    rw [whole]
    exact last.afterAll_steps _

/-- The labels of sums, and of quotients that are shown, are read as such. -/
theorem Evaluates.gave {ρ v : ScalarId → ℚ} (evaluates : s.Evaluates ρ v)
    (sound : s.ScalarsSound) (gave : s.Gave op lhs rhs id)
    (unreal : lhs.Unreal s ∨ rhs.Unreal s) (shown : op.Shown s lhs rhs) :
    v id = op.apply (lhs.value v) (rhs.value v) := by
  obtain ⟨before, after, earlier, run, later⟩ := gave
  obtain ⟨left, mid, right, last, a, b, first, second, steps, foundLeft, foundRight, composed⟩ :=
    ScalarOperator.request_spec earlier.extends.settings run
  have afterLast : last.Extends s := Steps.extends (steps.trans later)
  have afterMid : mid.Extends s := ((Scalar.ofOperand_grows rhs).extends second).trans afterLast
  replace foundLeft := afterLast.scalars foundLeft
  replace foundRight := afterLast.scalars foundRight
  obtain ⟨c, found, lin⟩ := composed (unreal.imp
    (fun unreal => Scalar.ofOperand_unreal first afterMid unreal foundLeft)
    (fun unreal => Scalar.ofOperand_unreal second afterLast unreal foundRight))
  replace found := later.extends.scalars found
  obtain ⟨p, plain, text, rootLeft⟩ := (sound left a foundLeft).spelled
  obtain ⟨q, plain', text', rootRight⟩ := (sound right b foundRight).spelled
  have values := evaluates.values sound
  have joined : c.lin.toList = (p.joined op q).text := by
    simp [lin, ScalarSpelling.text_joined, text, text']
  rw [evaluates id c _ found (plain.joined plain' op) joined,
    ← Scalar.ofOperand_value first afterMid values,
    ← Scalar.ofOperand_value second afterLast values,
    evaluates left a p foundLeft plain text, evaluates right b q foundRight plain' text']
  cases op with
  | sum => exact ScalarSpelling.value_joined_sum _ p q
  | quotient =>
    obtain ⟨unsummed, root⟩ := shown
    exact ScalarSpelling.value_joined_quotient _
      (Scalar.ofOperand_unsummed first afterMid sound unsummed foundLeft text rootLeft)
      (rootRight (Scalar.ofOperand_root second afterLast sound root foundRight))

end Session

/-! ## Valuations -/

namespace Scalar

/-- Derived scalars keep their meaning. For all values of the abstract root scalars there is one
value for every scalar of the session such that everything that addition or division has given
has the value of the sum or of the quotient, where a quotient is one that its label shows. -/
theorem arithmetic_valued (reachable : Session.Reachable {} s) (ρ : ScalarId → ℚ) :
    ∃ v, s.Values ρ v ∧ ∀ op lhs rhs id, s.Gave op lhs rhs id →
      lhs.Unreal s ∨ rhs.Unreal s → op.Shown s lhs rhs →
        v id = op.apply (lhs.value v) (rhs.value v) := by
  have sound : s.ScalarsSound := reachable.steps.scalarsSound
  obtain ⟨v, evaluates⟩ := s.exists_evaluates ρ
  exact ⟨v, evaluates.values sound, fun op lhs rhs id => evaluates.gave sound⟩

/-- The number two, a quotient of two scalars, and the sum of both. -/
theorem arithmetic_valued_sum : ∃ (s : Session) (v : ScalarId → ℚ), Session.Reachable {} s ∧
    s.Gave .quotient (.scalar ⟨0⟩) (.scalar ⟨1⟩) ⟨2⟩ ∧
    s.Gave .sum (.number 2) (.scalar ⟨2⟩) ⟨4⟩ ∧
    v ⟨0⟩ = 6 ∧ v ⟨1⟩ = 4 ∧ v ⟨2⟩ = 6 / 4 ∧ v ⟨4⟩ = 2 + 6 / 4 := by
  obtain ⟨s, reachable, roots, unreal, shown, quotient, sum⟩ : ∃ s, Session.Reachable {} s ∧
      (∀ id ∈ [⟨0⟩, ⟨1⟩], s.ScalarHas id fun c => c.isRoot = true ∧ c.isReal = false) ∧
      (∀ id ∈ [⟨0⟩, ⟨2⟩], (ScalarOperand.scalar id).Unreal s) ∧
      ScalarOperator.quotient.Shown s (.scalar ⟨0⟩) (.scalar ⟨1⟩) ∧
      s.Gave .quotient (.scalar ⟨0⟩) (.scalar ⟨1⟩) ⟨2⟩ ∧
      s.Gave .sum (.number 2) (.scalar ⟨2⟩) ⟨4⟩ :=
    ⟨Request.performAll {} [.scalar ⟨"a", "a"⟩, .scalar ⟨"b", "b"⟩,
        .scalarQuotient (.scalar ⟨0⟩) (.scalar ⟨1⟩), .scalarSum (.number 2) (.scalar ⟨2⟩)],
      .performAll {} _, by decide +kernel, by decide +kernel, by decide +kernel,
      .of_performAll 2 rfl (by decide +kernel), .of_performAll 3 rfl (by decide +kernel)⟩
  obtain ⟨v, values, each⟩ :=
    arithmetic_valued reachable fun id => if id = ⟨0⟩ then 6 else 4
  have a : v ⟨0⟩ = 6 := values.abstract ⟨0⟩ (roots _ (by decide))
  have b : v ⟨1⟩ = 4 := values.abstract ⟨1⟩ (roots _ (by decide))
  have divided : v ⟨2⟩ = 6 / 4 := by
    rw [each _ _ _ _ quotient (Or.inl (unreal _ (by decide))) shown]
    simp only [ScalarOperator.apply, ScalarOperand.value, a, b]
  have two : rational 2 = 2 := by decide +kernel
  refine ⟨s, v, reachable, quotient, sum, a, b, divided, ?_⟩
  rw [each _ _ _ _ sum (Or.inr (unreal _ (by decide))) trivial]
  simp only [ScalarOperator.apply, ScalarOperand.value, divided, two]

/-- The labels of derived scalars do not group their operands. The sum of `a` and of the
quotient of `b` by `c` is the quotient of the sum of `a` and `b` by `c`, which has another
value. -/
theorem arithmetic_confuses : ∃ (s : Session) (ρ : ScalarId → ℚ), Session.Reachable {} s ∧
    (∀ id, ρ id ≠ 0) ∧
    s.Gave .sum (.scalar ⟨0⟩) (.scalar ⟨1⟩) ⟨3⟩ ∧
    s.Gave .quotient (.scalar ⟨3⟩) (.scalar ⟨2⟩) ⟨4⟩ ∧
    s.Gave .quotient (.scalar ⟨1⟩) (.scalar ⟨2⟩) ⟨5⟩ ∧
    s.Gave .sum (.scalar ⟨0⟩) (.scalar ⟨5⟩) ⟨4⟩ ∧
    ∀ v, s.Values ρ v → v ⟨2⟩ ≠ 0 ∧ ¬ ∀ op lhs rhs id, s.Gave op lhs rhs id →
      lhs.Unreal s ∨ rhs.Unreal s → v id = op.apply (lhs.value v) (rhs.value v) := by
  obtain ⟨s, reachable, roots, unreal, sum, whole, part, other⟩ : ∃ s, Session.Reachable {} s ∧
      (∀ id ∈ [⟨0⟩, ⟨1⟩, ⟨2⟩], s.ScalarHas id fun c => c.isRoot = true ∧ c.isReal = false) ∧
      (∀ id ∈ [⟨0⟩, ⟨1⟩, ⟨3⟩], (ScalarOperand.scalar id).Unreal s) ∧
      s.Gave .sum (.scalar ⟨0⟩) (.scalar ⟨1⟩) ⟨3⟩ ∧
      s.Gave .quotient (.scalar ⟨3⟩) (.scalar ⟨2⟩) ⟨4⟩ ∧
      s.Gave .quotient (.scalar ⟨1⟩) (.scalar ⟨2⟩) ⟨5⟩ ∧
      s.Gave .sum (.scalar ⟨0⟩) (.scalar ⟨5⟩) ⟨4⟩ :=
    ⟨Request.performAll {} [.scalar ⟨"a", "a"⟩, .scalar ⟨"b", "b"⟩, .scalar ⟨"c", "c"⟩,
        .scalarSum (.scalar ⟨0⟩) (.scalar ⟨1⟩), .scalarQuotient (.scalar ⟨3⟩) (.scalar ⟨2⟩),
        .scalarQuotient (.scalar ⟨1⟩) (.scalar ⟨2⟩), .scalarSum (.scalar ⟨0⟩) (.scalar ⟨5⟩)],
      .performAll {} _, by decide +kernel, by decide +kernel,
      .of_performAll 3 rfl (by decide +kernel), .of_performAll 4 rfl (by decide +kernel),
      .of_performAll 5 rfl (by decide +kernel), .of_performAll 6 rfl (by decide +kernel)⟩
  refine ⟨s, fun id => if id = ⟨2⟩ then 2 else 1, reachable, fun id => ?_, sum, whole, part, other,
    fun v values => ?_⟩
  · dsimp only
    split <;> decide
  · have a : v ⟨0⟩ = 1 := values.abstract ⟨0⟩ (roots _ (by decide))
    have b : v ⟨1⟩ = 1 := values.abstract ⟨1⟩ (roots _ (by decide))
    have c : v ⟨2⟩ = 2 := values.abstract ⟨2⟩ (roots _ (by decide))
    refine ⟨by rw [c]; decide, fun each => ?_⟩
    have added := each _ _ _ _ sum (Or.inl (unreal _ (by decide)))
    have outer := each _ _ _ _ whole (Or.inl (unreal _ (by decide)))
    have divided := each _ _ _ _ part (Or.inl (unreal _ (by decide)))
    have inner := each _ _ _ _ other (Or.inl (unreal _ (by decide)))
    simp only [ScalarOperator.apply, ScalarOperand.value, a, b, c] at added outer divided inner
    rw [outer, added, divided] at inner
    exact absurd inner (by decide +kernel)

end Scalar

end Variational
