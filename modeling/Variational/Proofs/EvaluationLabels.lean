import Variational.Proofs.Answers
import Variational.Proofs.LabelIndices

/-!
# Labels of forms at instants

A form at an instant has labels that are composed from those of its base and of the
instant. The linguistic label tells the base, the sequence and the key, as long as no
root form has a label that looks like it. The symbol leaves the sequence out. So a root
form can be evaluated at every instant, unless it was evaluated at an instant of another
sequence with the same key.
-/

namespace Variational

open Derive

variable {s s' : Session}

/-! ## What the labels tell -/

namespace TimeInstant

variable {lin lin' key key' : String}

theorem reversed_key_avoids {c : Char} (valid : validateKey key = .ok ())
    (reserved : c ∈ reservedCharacters) : ∀ d ∈ key.toList.reverse, decide (d ≠ c) = true := by
  intro d member
  refine decide_eq_true fun equal => TimeInterval.not_mem_of_validateKey valid reserved ?_
  exact equal ▸ List.mem_reverse.1 member

/-- The label of an instant tells the label of the sequence and the key. -/
theorem lin_inj {lin₁ lin₂ key₁ key₂ : String} (valid₁ : validateKey key₁ = .ok ())
    (valid₂ : validateKey key₂ = .ok ()) (same : s!"{lin₁}[{key₁}]" = s!"{lin₂}[{key₂}]") :
    lin₁ = lin₂ ∧ key₁ = key₂ := by
  -- read from the end, the key stops at the bracket
  have texts := congrArg (List.reverse ∘ String.toList) same
  simp only [Function.comp_apply, String.toList_append, toString, List.reverse_append] at texts
  obtain ⟨keys, -, lins⟩ := Labels.append_cons_inj (p := fun d => decide (d ≠ '['))
    (reversed_key_avoids valid₁ (by decide)) (reversed_key_avoids valid₂ (by decide)) (by decide)
    (by decide) (List.append_cancel_left texts)
  exact ⟨String.toList_injective (List.reverse_injective lins),
    String.toList_injective (List.reverse_injective keys)⟩

end TimeInstant

namespace Form

variable {sym sym' lin lin' key key' instant instant' : String}

/-- The symbol of a form at an instant tells the symbol of the base and the key. -/
theorem evaluationSym_inj (valid : TimeInstant.validateKey key = .ok ())
    (valid' : TimeInstant.validateKey key' = .ok ())
    (same : ({} : SymGlyphs).evaluateAt.join sym key = ({} : SymGlyphs).evaluateAt.join sym' key') :
    sym = sym' ∧ key = key' := by
  -- read from the end, the key and the parenthesis before it stop at the brace
  have texts := congrArg (List.reverse ∘ String.toList) same
  simp only [PairWrapper.join, Function.comp_apply, String.toList_append, List.reverse_append]
    at texts
  have cut : ∀ {key : String}, TimeInstant.validateKey key = .ok () →
      ∀ d ∈ key.toList.reverse ++ ['('], decide (d ≠ '\x7b') = true := by
    intro key valid d member
    rcases List.mem_append.1 member with inside | paren
    · exact TimeInstant.reversed_key_avoids valid (by decide) d inside
    · rw [List.mem_singleton.1 paren]
      rfl
  have inner : ∀ key sym : List Char, key ++ ("\\right|^\x7b(".toList.reverse ++ sym) =
      (key ++ ['(']) ++ '\x7b' :: ("\\right|^".toList.reverse ++ sym) := by
    intro key sym
    simp
  rw [List.append_cancel_left_eq, inner, inner] at texts
  obtain ⟨keys, -, syms⟩ := Labels.append_cons_inj (p := fun d => decide (d ≠ '\x7b'))
    (cut valid) (cut valid') (by decide) (by decide) texts
  have syms := List.append_cancel_right (List.append_cancel_left syms)
  exact ⟨String.toList_injective (List.reverse_injective syms),
    String.toList_injective (List.reverse_injective (List.append_cancel_right keys))⟩

/-- The linguistic label of a form at an instant is cut at the first evaluation glyph. -/
theorem evaluationLin_inj (bare : '@' ∉ lin.toList) (bare' : '@' ∉ lin'.toList)
    (same : lin ++ ({} : LinGlyphs).evaluateAt ++ instant =
      lin' ++ ({} : LinGlyphs).evaluateAt ++ instant') : lin = lin' ∧ instant = instant' := by
  have texts := congrArg String.toList same
  simp only [String.toList_append, List.append_assoc] at texts
  have avoids : ∀ {text : String}, '@' ∉ text.toList →
      ∀ d ∈ text.toList, decide (d ≠ '@') = true :=
    fun bare d member => decide_eq_true fun equal => bare (equal ▸ member)
  obtain ⟨lins, -, instants⟩ := Labels.append_cons_inj (p := fun d => decide (d ≠ '@'))
    (avoids bare) (avoids bare') (by decide) (by decide) texts
  exact ⟨String.toList_injective lins, String.toList_injective instants⟩

/-- The labels of a root form that do not look like those of a form at an instant. -/
def Plain (f : Form) : Prop :=
  '@' ∉ (f.pureLin.getD "").toList ∧ ¬ "\\left".toList <+: f.sym.toList

instance (f : Form) : Decidable f.Plain :=
  inferInstanceAs (Decidable (_ ∧ _))

theorem Plain.sym_ne {f : Form} (plain : f.Plain) :
    f.sym ≠ ({} : SymGlyphs).evaluateAt.join sym key := by
  intro same
  refine plain.2 ?_
  rw [same, PairWrapper.join]
  simp only [String.toList_append, List.append_assoc]
  exact (by decide : "\\left".toList <+: "\\left.".toList).trans (List.prefix_append _ _)

theorem Plain.lin_ne {f : Form} (plain : f.Plain) :
    f.pureLin ≠ some (lin ++ ({} : LinGlyphs).evaluateAt ++ instant) := by
  intro same
  refine plain.1 ?_
  rw [same, Option.getD_some]
  simp

end Form

/-! ## The labels of evaluated forms -/

namespace Session

/-- The label of an instant is composed from that of its sequence and its key. -/
def InstantNamed (s : Session) (i : TimeInstant) : Prop :=
  ∃ t, s.timeSequences.get? i.sequence = some t ∧ i.labels.lin = s!"{t.labels.lin}[{i.key}]"

/-- A form at an instant has labels that are composed from those of its base and of the
instant. -/
def EvaluationNamed (s : Session) (e : Form) : Prop :=
  ∀ b, e.expr = .atInstant b → ∃ a i, s.forms.get? b.base = some a ∧ a.expr = .root ∧
    s.timeInstants.get? b.instant = some i ∧ i.sequence = b.sequence ∧
    e.sym = s.settings.conventions.symGlyphs.evaluateAt.join a.sym i.key ∧
    e.pureLin =
      some (a.pureLin.getD "" ++ s.settings.conventions.linGlyphs.evaluateAt ++ i.labels.lin)

/-- Instants and the forms at them are labelled for what they are. -/
structure EvaluationsNamed (s : Session) : Prop where
  instants : ∀ {id i}, s.timeInstants.get? id = some i → s.InstantNamed i
  forms : ∀ {id e}, s.forms.get? id = some e → s.EvaluationNamed e

theorem Extends.instantNamed (later : s.Extends s') {i : TimeInstant} (named : s.InstantNamed i) :
    s'.InstantNamed i := by
  obtain ⟨t, found, lin⟩ := named
  obtain ⟨t', found', labels, -⟩ := later.timeSequences found
  exact ⟨t', found', by rw [lin, labels]⟩

theorem Extends.evaluationNamed (later : s.Extends s') {e : Form} (named : s.EvaluationNamed e) :
    s'.EvaluationNamed e := by
  intro b bound
  obtain ⟨a, i, foundBase, root, foundInstant, sequence, sym, lin⟩ := named b bound
  exact ⟨a, i, later.forms foundBase, root, later.timeInstants foundInstant, sequence,
    by rw [sym, later.settings], by rw [lin, later.settings]⟩

namespace Step

theorem instantsNamed (step : s.Step s')
    (named : ∀ {id i}, s.timeInstants.get? id = some i → s.InstantNamed i) {id : TimeInstantId}
    {i : TimeInstant} (found : s'.timeInstants.get? id = some i) : s'.InstantNamed i := by
  have later := step.extends
  cases step with
  | timeInstant foundSequence =>
    rcases Arena.get?_push_cases found with old | ⟨rfl, rfl⟩
    · exact later.instantNamed (named old)
    · exact later.instantNamed ⟨_, foundSequence, rfl⟩
  | _ => exact later.instantNamed (named found)

theorem formsNamed (step : s.Step s')
    (named : ∀ {id e}, s.forms.get? id = some e → s.EvaluationNamed e) {id : FormId} {e : Form}
    (found : s'.forms.get? id = some e) : s'.EvaluationNamed e := by
  have later := step.extends
  cases step with
  | rootForm =>
    rcases Arena.get?_push_cases found with old | ⟨rfl, rfl⟩
    · exact later.evaluationNamed (named old)
    · exact fun b bound => by cases bound
  | evaluation _ foundBase root _ foundInstant labelled =>
    rcases Arena.get?_push_cases found with old | ⟨rfl, rfl⟩
    · exact later.evaluationNamed (named old)
    · subst labelled
      refine later.evaluationNamed fun b bound => ?_
      cases bound
      exact ⟨_, _, foundBase, root, foundInstant, rfl, rfl, rfl⟩
  | derivedForm _ _ derived =>
    rcases Arena.get?_push_cases found with old | ⟨rfl, rfl⟩
    · exact later.evaluationNamed (named old)
    · exact fun b bound => by simp [bound, FormExpr.isLeaf] at derived
  | _ => exact later.evaluationNamed (named found)

end Step

theorem EvaluationsNamed.new (settings : Settings) : (Session.new settings).EvaluationsNamed where
  instants found := by cases found
  forms found := by cases found

theorem EvaluationsNamed.step (named : s.EvaluationsNamed) (step : s.Step s') :
    s'.EvaluationsNamed where
  instants := step.instantsNamed named.instants
  forms := step.formsNamed named.forms

theorem Reachable.evaluationsNamed {settings : Settings} (reachable : Reachable settings s) :
    s.EvaluationsNamed :=
  reachable.invariant (.new settings) fun named step => named.step step

/-- No root form has labels that look like those of a form at an instant. -/
def PlainRoots (s : Session) : Prop :=
  ∀ f a, s.forms.get? f = some a → a.expr = .root → a.Plain

instance (s : Session) : Decidable s.PlainRoots :=
  decidable_of_iff (∀ a ∈ s.forms.entities, a.expr = .root → a.Plain) Arena.forall_get?_iff.symm

/-- A session with default settings in which labels of root forms do not look like those of forms
at instants. -/
structure Evaluable (s : Session) : Prop where
  settings : s.settings = {}
  sound : s.Sound
  distinct : s.Distinct
  labelled : s.Labelled
  named : s.EvaluationsNamed
  plain : s.PlainRoots

theorem Reachable.evaluable (reachable : Reachable {} s) (plain : s.PlainRoots) : s.Evaluable :=
  ⟨reachable.settings_eq, reachable.sound, reachable.distinct, reachable.labelled,
    reachable.evaluationsNamed, plain⟩

namespace Evaluable

variable {f e e' : FormId} {a form : Form} {sequence sequence' : TimeSequenceId}
  {t : TimeSequence} {key : String}

/-- The symbol of a form at an instant. -/
theorem sym_of_evaluatedAt (evaluable : s.Evaluable) (found : s.forms.get? f = some a)
    (evaluated : s.EvaluatedAt sequence f key e) :
    ∃ form, s.forms.get? e = some form ∧ form.pureLin.isSome = true ∧
      form.sym = ({} : SymGlyphs).evaluateAt.join a.sym key := by
  obtain ⟨i, ⟨x, foundInstant, -, rfl⟩, form, foundForm, bound⟩ := evaluated
  obtain ⟨a', i', foundBase, -, foundInstant', -, sym, lin⟩ :=
    evaluable.named.forms foundForm _ bound
  cases found.symm.trans foundBase
  cases foundInstant.symm.trans foundInstant'
  exact ⟨form, foundForm, by rw [lin]; rfl, by rw [sym, evaluable.settings]⟩

/-- Root forms have a pure label. -/
theorem lin_of_root (evaluable : s.Evaluable) (found : s.forms.get? f = some a)
    (root : a.expr = .root) : a.pureLin = some (a.pureLin.getD "") := by
  have labelled := (evaluable.sound.forms found).2.2.2 (by rw [root]; rfl)
  obtain ⟨lin, pure⟩ := Option.isSome_iff_exists.1 labelled
  rw [pure, Option.getD_some]

/-- A form with a pure label that is not plain is a form at an instant. -/
theorem binding_of_labelled (evaluable : s.Evaluable) (found : s.forms.get? e = some form)
    (labelled : form.pureLin.isSome = true) (fancy : ¬ form.Plain) :
    ∃ b, form.expr = .atInstant b := by
  obtain ⟨-, -, leaf⟩ := evaluable.sound.forms found
  have leaf := leaf.1 labelled
  cases bound : form.expr with
  | root => exact absurd (evaluable.plain e form found bound) fancy
  | atInstant b => exact ⟨b, rfl⟩
  | _ => simp [bound, FormExpr.isLeaf] at leaf

/-- A root form with the symbol of a form at an instant is its base at an instant with the key. -/
theorem evaluatedAt_of_sym (evaluable : s.Evaluable) (found : s.forms.get? f = some a)
    (root : a.expr = .root) (valid : TimeInstant.validateKey key = .ok ())
    (foundForm : s.forms.get? e = some form) (labelled : form.pureLin.isSome = true)
    (same : form.sym = ({} : SymGlyphs).evaluateAt.join a.sym key) :
    ∃ sequence, s.EvaluatedAt sequence f key e := by
  obtain ⟨b, bound⟩ := evaluable.binding_of_labelled foundForm labelled fun plain =>
    plain.sym_ne same
  obtain ⟨a', i, foundBase, root', foundInstant, sequence, sym, -⟩ :=
    evaluable.named.forms foundForm b bound
  rw [evaluable.settings] at sym
  obtain ⟨syms, rfl⟩ := Form.evaluationSym_inj (evaluable.labelled.keys foundInstant) valid
    (sym.symm.trans same)
  obtain rfl := evaluable.sound.form_eq_of_sym foundBase found
    (by rw [evaluable.lin_of_root foundBase root']; rfl)
    (by rw [evaluable.lin_of_root found root]; rfl) syms
  exact ⟨b.sequence, b.instant, ⟨i, foundInstant, sequence, rfl⟩, form, foundForm, bound⟩

/-- A root form with the linguistic label of a form at an instant is this form. -/
theorem evaluatedAt_of_lin (evaluable : s.Evaluable) (found : s.forms.get? f = some a)
    (root : a.expr = .root) (valid : TimeInstant.validateKey key = .ok ())
    (foundSequence : s.timeSequences.get? sequence = some t)
    (foundForm : s.forms.get? e = some form)
    (same : form.pureLin =
      some (a.pureLin.getD "" ++ ({} : LinGlyphs).evaluateAt ++ s!"{t.labels.lin}[{key}]")) :
    s.EvaluatedAt sequence f key e := by
  obtain ⟨b, bound⟩ := evaluable.binding_of_labelled foundForm (by rw [same]; rfl) fun plain =>
    plain.lin_ne same
  obtain ⟨a', i, foundBase, root', foundInstant, sequence, -, lin⟩ :=
    evaluable.named.forms foundForm b bound
  obtain ⟨t', foundSequence', instant⟩ := evaluable.named.instants foundInstant
  rw [evaluable.settings, instant] at lin
  obtain ⟨bases, instants⟩ := Form.evaluationLin_inj
    (evaluable.plain _ a' foundBase root').1 (evaluable.plain f a found root).1
    (Option.some.inj (lin.symm.trans same))
  obtain ⟨lins, rfl⟩ := TimeInstant.lin_inj (evaluable.labelled.keys foundInstant) valid instants
  have base : b.base = f := by
    have named : a'.rootLabels? = some ⟨a'.sym, a.pureLin.getD ""⟩ := by
      rw [Form.rootLabels?, evaluable.lin_of_root foundBase root', bases]
      rfl
    have named' : a.rootLabels? = some ⟨a.sym, a.pureLin.getD ""⟩ := by
      rw [Form.rootLabels?, evaluable.lin_of_root found root]
      rfl
    exact evaluable.labelled.forms.exact.eq_of_shared foundBase found named named' (Or.inr rfl)
  have common : i.sequence = _ :=
    evaluable.labelled.timeSequences.exact.eq_of_shared foundSequence' foundSequence rfl rfl
      (Or.inr lins)
  subst base common
  exact ⟨b.instant, ⟨i, foundInstant, rfl, rfl⟩, form, foundForm, by rw [sequence, bound]⟩

/-- A form has one symbol at all instants with a key, so it is at one of them. -/
theorem evaluatedAt_unique (evaluable : s.Evaluable) (found : s.forms.get? f = some a)
    (evaluated : s.EvaluatedAt sequence f key e) (evaluated' : s.EvaluatedAt sequence' f key e') :
    sequence = sequence' ∧ e = e' := by
  obtain ⟨form, foundForm, labelled, sym⟩ := evaluable.sym_of_evaluatedAt found evaluated
  obtain ⟨form', foundForm', labelled', sym'⟩ := evaluable.sym_of_evaluatedAt found evaluated'
  obtain rfl := evaluable.sound.form_eq_of_sym foundForm foundForm' labelled labelled'
    (sym.trans sym'.symm)
  obtain ⟨i, -, x, read, bound⟩ := evaluated
  obtain ⟨i', -, x', read', bound'⟩ := evaluated'
  cases read.symm.trans read'
  cases bound.symm.trans bound'
  exact ⟨rfl, rfl⟩

end Evaluable

end Session

/-! ## Evaluating -/

namespace Form

variable {f e : FormId} {a : Form} {i : TimeInstantId} {x : TimeInstant}

/-- A root form is registered for a space of the session under free labels. -/
theorem register_of_available {space : SpaceId} {sp : Space} {labels : Labels} {expr : FormExpr}
    (found : s.spaces.get? space = some sp) (available : s.formLabels.Available labels)
    (holds : s.forms.Holds expr) :
    register space labels expr s = .ok s.forms.nextId (s.addRootForm space labels expr holds) := by
  have recorded : record (s.rootForm space labels expr) s = .ok s.forms.nextId _ :=
    record_of_space found holds
  rw [register, get_bind, lift_bind_of_ok (LabelIndex.checkAvailable_eq_ok.2 available)]
  exact (bind_of_ok recorded _).trans rfl

/-- Under a symbol that is taken, no root form is registered. -/
theorem register_of_taken {space : SpaceId} {labels : Labels} {expr : FormExpr}
    (taken : s.formLabels.hasSym labels.sym = true) :
    register space labels expr s = .error (.rejected (.identityConflict .form labels.sym)) s := by
  have refused : s.formLabels.checkAvailable labels = reject (.identityConflict .form labels.sym) :=
    if_pos taken
  rw [register, get_bind, refused]
  rfl

theorem reads_of_knownEvaluation (known : knownEvaluation s f i = some e) :
    ∃ sequence, s.Reads e (.atInstant ⟨f, sequence, i⟩) := by
  obtain ⟨form, found, same⟩ := Arena.find?_eq_some known
  cases bound : form.expr with
  | atInstant b =>
    simp only [isEvaluation, bound, decide_eq_true_eq] at same
    obtain ⟨rfl, rfl⟩ := same
    exact ⟨b.sequence, form, found, bound⟩
  | _ => simp [isEvaluation, bound] at same

end Form

namespace Session.Evaluable

variable {f e : FormId} {a : Form} {i : TimeInstantId} {x : TimeInstant}
  {sequence : TimeSequenceId}

/-- A form that was evaluated at an instant is a form at this instant. -/
theorem evaluatedAt_of_known (evaluable : s.Evaluable)
    (foundInstant : s.timeInstants.get? i = some x) (known : Form.knownEvaluation s f i = some e) :
    s.EvaluatedAt x.sequence f x.key e := by
  obtain ⟨_, form, found, bound⟩ := Form.reads_of_knownEvaluation known
  obtain ⟨_, x', -, -, foundInstant', same, -⟩ := evaluable.named.forms found _ bound
  cases foundInstant.symm.trans foundInstant'
  exact ⟨i, ⟨x, foundInstant, rfl, rfl⟩, form, found, by rw [bound, same]⟩

/-- A form that was not evaluated at an instant is no form at this instant. -/
theorem not_evaluatedAt_of_unknown (evaluable : s.Evaluable)
    (foundInstant : s.timeInstants.get? i = some x) (unknown : Form.knownEvaluation s f i = none) :
    ¬ s.EvaluatedAt x.sequence f x.key e := by
  rintro ⟨j, instant, form, found, bound⟩
  obtain rfl := evaluable.distinct.instantAt_unique instant ⟨x, foundInstant, rfl, rfl⟩
  have missed := Arena.find?_eq_none.1 unknown e form found
  simp [Form.isEvaluation, bound] at missed

/-- The labels of a form at an instant are free, if the form is at no instant with the key. -/
theorem available (evaluable : s.Evaluable) (found : s.forms.get? f = some a)
    (root : a.expr = .root) (foundInstant : s.timeInstants.get? i = some x)
    (fresh : ∀ sequence e, ¬ s.EvaluatedAt sequence f x.key e) :
    s.formLabels.Available ⟨({} : SymGlyphs).evaluateAt.join a.sym x.key,
      a.pureLin.getD "" ++ ({} : LinGlyphs).evaluateAt ++ x.labels.lin⟩ := by
  have valid := evaluable.labelled.keys foundInstant
  obtain ⟨t, foundSequence, instant⟩ := evaluable.named.instants foundInstant
  refine ⟨Bool.eq_false_iff.2 fun taken => ?_, Bool.eq_false_iff.2 fun taken => ?_⟩
  · obtain ⟨e, form, labels, foundForm, named, same⟩ :=
      evaluable.labelled.forms.exact.hasSym_iff.1 taken
    obtain ⟨lin, pure, rfl⟩ := Option.map_eq_some_iff.1 named
    obtain ⟨sequence, evaluated⟩ :=
      evaluable.evaluatedAt_of_sym found root valid foundForm (by rw [pure]; rfl) same
    exact fresh sequence e evaluated
  · obtain ⟨e, form, labels, foundForm, named, same⟩ :=
      evaluable.labelled.forms.exact.hasLin_iff.1 taken
    obtain ⟨lin, pure, rfl⟩ := Option.map_eq_some_iff.1 named
    exact fresh x.sequence e (evaluable.evaluatedAt_of_lin found root valid foundSequence foundForm
      (by rw [pure, ← instant]; exact congrArg some same))

/-- Evaluating gives the form at the instant, if the form is at no other instant with the key. -/
theorem evaluateAt_succeeds (evaluable : s.Evaluable) (found : s.forms.get? f = some a)
    (root : a.expr = .root) (foundInstant : s.timeInstants.get? i = some x)
    (free : ∀ sequence e, s.EvaluatedAt sequence f x.key e → sequence = x.sequence) :
    ∃ e s', Form.evaluateAt f i s = .ok e s' ∧ s'.EvaluatedAt x.sequence f x.key e := by
  have succeeds : ∃ e s', Form.evaluateAt f i s = .ok e s' := by
    rw [Form.evaluateAt, get_bind]
    cases unknown : Form.knownEvaluation s f i with
    | some e => exact ⟨e, s, rfl⟩
    | none =>
      have fetched : s.form f = .ok a := Arena.fetch_eq_ok_iff.2 found
      have fetchedInstant : s.timeInstant i = .ok x := Arena.fetch_eq_ok_iff.2 foundInstant
      obtain ⟨⟨sp, foundSpace⟩, -⟩ := evaluable.sound.forms found
      have free := evaluable.available found root foundInstant fun sequence e evaluated =>
        evaluable.not_evaluatedAt_of_unknown foundInstant unknown
          (free sequence e evaluated ▸ evaluated)
      simp only [lift_bind_of_ok fetched, root, lift_bind_of_ok fetchedInstant]
      refine ⟨_, _, Form.register_of_available foundSpace ?_ fun g member => by cases member⟩
      rw [evaluable.settings]
      exact free
  obtain ⟨e, s', run⟩ := succeeds
  exact ⟨e, s', run,
    (Form.evaluateAt_spec evaluable.sound ⟨x, foundInstant, rfl, rfl⟩ run).2⟩

/-- Evaluating is rejected, if the form is at an instant of another sequence with the key. -/
theorem evaluateAt_rejected (evaluable : s.Evaluable) (found : s.forms.get? f = some a)
    (root : a.expr = .root) (foundInstant : s.timeInstants.get? i = some x)
    (evaluated : s.EvaluatedAt sequence f x.key e) (other : sequence ≠ x.sequence) :
    Form.evaluateAt f i s = .error (.rejected (.identityConflict .form
      (({} : SymGlyphs).evaluateAt.join a.sym x.key))) s := by
  rw [Form.evaluateAt, get_bind]
  cases unknown : Form.knownEvaluation s f i with
  | some e' =>
    have here := evaluable.evaluatedAt_of_known foundInstant unknown
    exact absurd (evaluable.evaluatedAt_unique found evaluated here).1 other
  | none =>
    have fetched : s.form f = .ok a := Arena.fetch_eq_ok_iff.2 found
    have fetchedInstant : s.timeInstant i = .ok x := Arena.fetch_eq_ok_iff.2 foundInstant
    obtain ⟨form, foundForm, labelled, sym⟩ := evaluable.sym_of_evaluatedAt found evaluated
    obtain ⟨lin, pure⟩ := Option.isSome_iff_exists.1 labelled
    have taken : s.formLabels.hasSym (({} : SymGlyphs).evaluateAt.join a.sym x.key) = true :=
      evaluable.labelled.forms.exact.hasSym_iff.2
        ⟨e, form, ⟨form.sym, lin⟩, foundForm, by rw [Form.rootLabels?, pure]; rfl, sym⟩
    simp only [lift_bind_of_ok fetched, root, lift_bind_of_ok fetchedInstant, evaluable.settings]
    exact Form.register_of_taken taken

end Session.Evaluable

namespace Form

variable {f g e : FormId} {i j : TimeInstantId}

/-- What a form was evaluated to tells the form and the instant. -/
theorem reads_of_evaluateAt (run : evaluateAt f i s = .ok e s') :
    ∃ sequence, s'.Reads e (.atInstant ⟨f, sequence, i⟩) :=
  reads_of_knownEvaluation (knownEvaluation_of_evaluateAt run)

/-- In later sessions too, no other form or instant gives the same form. -/
theorem evaluateAt_inj {mid last : Session} (run : evaluateAt f i s = .ok e s')
    (steps : s'.Steps mid) (run' : evaluateAt g j mid = .ok e last) : g = f ∧ j = i := by
  obtain ⟨_, reads⟩ := reads_of_evaluateAt run
  obtain ⟨_, form, found, bound⟩ := reads_of_evaluateAt run'
  obtain ⟨form', found', bound'⟩ :=
    (steps.extends.trans ((evaluateAt_grows g j).extends run')).reads reads
  cases found.symm.trans found'
  cases bound.symm.trans bound'
  exact ⟨rfl, rfl⟩

end Form

namespace Session

/-- Evaluation is total up to keys, and injective. A root form is evaluated at every instant, if it
is not at an instant of another sequence with the same key yet. If it is, the evaluation is
rejected for the symbol, which leaves the sequence out, and changes nothing. And a form that was
evaluated is never the answer for another form or instant, whatever is requested in between. -/
theorem Reachable.evaluation_exact (reachable : Reachable {} s) (plain : s.PlainRoots) :
    (∀ f a i x, s.forms.get? f = some a → a.expr = .root → s.timeInstants.get? i = some x →
      ((∀ sequence e, s.EvaluatedAt sequence f x.key e → sequence = x.sequence) →
        ∃ e s', Form.evaluateAt f i s = .ok e s' ∧ s'.EvaluatedAt x.sequence f x.key e) ∧
      ∀ sequence e, s.EvaluatedAt sequence f x.key e → sequence ≠ x.sequence →
        Form.evaluateAt f i s = .error (.rejected (.identityConflict .form
          (({} : SymGlyphs).evaluateAt.join a.sym x.key))) s) ∧
    ∀ f i e s', Form.evaluateAt f i s = .ok e s' → ∀ (requests : List Request) g j s'',
      Form.evaluateAt g j (s'.afterAll requests) = .ok e s'' → g = f ∧ j = i := by
  have evaluable := reachable.evaluable plain
  refine ⟨fun f a i x found root foundInstant => ⟨?_, fun sequence e evaluated other => ?_⟩,
    fun f i e s' run requests g j s'' run' => ?_⟩
  · exact evaluable.evaluateAt_succeeds found root foundInstant
  · exact evaluable.evaluateAt_rejected found root foundInstant evaluated other
  · exact Form.evaluateAt_inj run (s'.afterAll_steps requests) run'

/-- With `u` evaluated at the key `k` of one of two sequences, it is evaluated at the key `l` of
the other one, and `v` at the key `k`. At the key `k` of the other sequence `u` is rejected. -/
theorem evaluation_exact_interval : ∃ s, Reachable {} s ∧ s.PlainRoots ∧
    (∃ e s', Form.evaluateAt ⟨0⟩ ⟨2⟩ s = .ok e s' ∧ s'.EvaluatedAt ⟨1⟩ ⟨0⟩ "l" e) ∧
    (∃ e s', Form.evaluateAt ⟨1⟩ ⟨1⟩ s = .ok e s' ∧ s'.EvaluatedAt ⟨1⟩ ⟨1⟩ "k" e) ∧
    Form.evaluateAt ⟨0⟩ ⟨1⟩ s =
      .error (.rejected (.identityConflict .form "\\left.u\\right|^\x7b(k)\x7d")) s := by
  obtain ⟨s, reachable, plain, forms, u, v, first, second, third⟩ : ∃ s, Reachable {} s ∧
      s.PlainRoots ∧ s.forms.entities.map Form.expr = [.root, .root, .atInstant ⟨⟨0⟩, ⟨0⟩, ⟨0⟩⟩] ∧
      (s.forms.get? ⟨0⟩).map (fun f => (f.expr, f.sym)) = some (.root, "u") ∧
      (s.forms.get? ⟨1⟩).map (fun f => (f.expr, f.sym)) = some (.root, "v") ∧
      (s.timeInstants.get? ⟨0⟩).map (fun x => (x.sequence, x.key)) = some (⟨0⟩, "k") ∧
      (s.timeInstants.get? ⟨1⟩).map (fun x => (x.sequence, x.key)) = some (⟨1⟩, "k") ∧
      (s.timeInstants.get? ⟨2⟩).map (fun x => (x.sequence, x.key)) = some (⟨1⟩, "l") :=
    ⟨Request.performAll {} [.manifold 1, .mesh ⟨0⟩, .space ⟨0⟩ 1 .outer, .root ⟨0⟩ ⟨"u", "u"⟩,
      .root ⟨0⟩ ⟨"v", "v"⟩, .sequence, .sequence, .instant ⟨0⟩ "k", .instant ⟨1⟩ "k",
      .instant ⟨1⟩ "l", .evaluation ⟨0⟩ ⟨0⟩], .performAll {} _, by decide +kernel⟩
  obtain ⟨exact, -⟩ := reachable.evaluation_exact plain
  simp only [Option.map_eq_some_iff, Prod.mk.injEq] at u v first second third
  obtain ⟨u, foundU, rootU, symU⟩ := u
  obtain ⟨v, foundV, rootV, -⟩ := v
  obtain ⟨x, foundFirst, sequenceFirst, keyFirst⟩ := first
  obtain ⟨y, foundSecond, sequenceSecond, keySecond⟩ := second
  obtain ⟨z, foundThird, sequenceThird, keyThird⟩ := third
  have only : ∀ {sequence f key e}, s.EvaluatedAt sequence f key e → f = ⟨0⟩ ∧ key = "k" := by
    rintro sequence f key e ⟨i, ⟨w, foundInstant, -, rfl⟩, form, found, bound⟩
    have member := List.mem_map_of_mem (f := Form.expr) (List.mem_of_getElem? found)
    rw [forms, bound] at member
    obtain ⟨rfl, rfl, rfl⟩ := by simpa using member
    cases foundFirst.symm.trans foundInstant
    exact ⟨rfl, keyFirst⟩
  have evaluated : ∃ e, s.EvaluatedAt ⟨0⟩ ⟨0⟩ "k" e := by
    obtain ⟨e, found, bound⟩ := List.mem_map.1
      (show FormExpr.atInstant ⟨⟨0⟩, ⟨0⟩, ⟨0⟩⟩ ∈ s.forms.entities.map Form.expr by simp [forms])
    obtain ⟨i, foundForm⟩ := List.mem_iff_getElem?.1 found
    exact ⟨⟨i⟩, ⟨0⟩, ⟨x, foundFirst, sequenceFirst, keyFirst⟩, e, foundForm, bound⟩
  obtain ⟨e, evaluated⟩ := evaluated
  refine ⟨s, reachable, plain, ?_, ?_, ?_⟩
  · rw [← sequenceThird, ← keyThird]
    refine (exact ⟨0⟩ u ⟨2⟩ z foundU rootU foundThird).1 fun sequence e other => ?_
    have keys := (only other).2
    rw [keyThird] at keys
    exact absurd keys (by decide)
  · rw [← sequenceSecond, ← keySecond]
    refine (exact ⟨1⟩ v ⟨1⟩ y foundV rootV foundSecond).1 fun sequence e other => ?_
    exact absurd (only other).1 (by decide)
  · have rejected := (exact ⟨0⟩ u ⟨1⟩ y foundU rootU foundSecond).2 ⟨0⟩ e
      (by rw [keySecond]; exact evaluated) (by rw [sequenceSecond]; decide)
    rw [rejected, symU, keySecond]
    rfl

/-- Evaluation is not total. The symbol of `u` at the key `k` of a second sequence is taken by `u`
at the key `k` of the first one. -/
theorem evaluation_clashes : ¬ ∀ s, Reachable {} s → s.PlainRoots → ∀ f a i x,
    s.forms.get? f = some a → a.expr = .root → s.timeInstants.get? i = some x →
      ∃ e s', Form.evaluateAt f i s = .ok e s' := by
  intro total
  obtain ⟨s, reachable, plain, root, instant, rejected⟩ : ∃ s, Reachable {} s ∧ s.PlainRoots ∧
      s.Reads ⟨0⟩ .root ∧ (s.timeInstants.get? ⟨1⟩).isSome = true ∧
      (match Form.evaluateAt ⟨0⟩ ⟨1⟩ s with
        | .ok _ _ => false
        | .error _ _ => true) = true :=
    ⟨Request.performAll {} [.manifold 1, .mesh ⟨0⟩, .space ⟨0⟩ 1 .outer, .root ⟨0⟩ ⟨"u", "u"⟩,
      .sequence, .sequence, .instant ⟨0⟩ "k", .instant ⟨1⟩ "k", .evaluation ⟨0⟩ ⟨0⟩],
      .performAll {} _, by decide +kernel⟩
  obtain ⟨a, found, base⟩ := root
  obtain ⟨x, foundInstant⟩ := Option.isSome_iff_exists.1 instant
  obtain ⟨e, s', run⟩ := total s reachable plain ⟨0⟩ a ⟨1⟩ x found base foundInstant
  rw [run] at rejected
  cases rejected

end Session

end Variational
