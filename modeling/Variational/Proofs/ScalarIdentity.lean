import Variational.Proofs.ScalarMeaning
import Variational.Proofs.Session.Distinct

/-!
# Scalars and arrays told by their labels

The linguistic label of a root scalar ends at its first brace, the label of a derived scalar
goes on behind it, and neither kind records a label twice. So under the default settings no
two scalars of a session share a label. No two arrays of a session do under any settings.
-/

namespace Variational

variable {s s' : Session} {settings : Settings}

/-- What is wrapped can be read off. -/
theorem Wrapper.wrap_inj {w : Wrapper} {text text' : String}
    (same : w.wrap text = w.wrap text') : text = text' := by
  have texts := congrArg String.toList same
  simp only [wrap, String.toList_append, List.append_assoc] at texts
  exact String.toList_injective (List.append_cancel_right (List.append_cancel_left texts))

/-! ## Scalars -/

namespace Session

/-- The label of a derived scalar spells at least one operation. -/
def ScalarsComposite (s : Session) : Prop :=
  ∀ id c, s.scalars.get? id = some c → c.pureLin = none →
    ∃ p : ScalarSpelling, p.Plain ∧ p.rest ≠ [] ∧ c.lin.toList = p.text

theorem ScalarComposed.composite {labels : Labels} (composed : s.ScalarComposed labels)
    (default : s.settings = {}) (sound : s.ScalarsSound) :
    ∃ p : ScalarSpelling, p.Plain ∧ p.rest ≠ [] ∧ labels.lin.toList = p.text := by
  obtain ⟨p, q, op, plain, plain', text⟩ := composed.joined default sound
  exact ⟨p.joined op q, plain.joined plain' op, by simp [ScalarSpelling.joined], text⟩

theorem Step.scalarsComposite (step : s.Step s') (default : s.settings = {})
    (sound : s.ScalarsSound) (composite : s.ScalarsComposite) : s'.ScalarsComposite := by
  cases step with
  | rootScalar =>
    intro id c found derived
    rcases Arena.get?_push_cases found with old | ⟨-, rfl⟩
    · exact composite id c old derived
    · cases derived
  | derivedScalar composed =>
    intro id c found derived
    rcases Arena.get?_push_cases found with old | ⟨-, rfl⟩
    · exact composite id c old derived
    · exact composed.composite default sound
  | _ => exact composite

/-- A label of a root scalar is none of a derived one. -/
theorem rootLin_ne_composite {lin : String} (plain : '}' ∉ lin.toList) {p : ScalarSpelling}
    (plain' : p.Plain) (composite : p.rest ≠ []) : (Scalar.rootLin lin).toList ≠ p.text := by
  intro same
  have root : (⟨lin, []⟩ : ScalarSpelling).text = p.text := by
    rw [← same, ScalarSpelling.text, ScalarSpelling.textOf, List.append_nil]
  obtain rfl := ScalarSpelling.text_inj ⟨plain, by simp⟩ plain' root
  exact composite rfl

/-- A step adds no scalar with the label of another one. -/
theorem Step.distinctScalars (step : s.Step s') (default : s.settings = {})
    (sound : s.ScalarsSound) (composite : s.ScalarsComposite)
    (distinct : s.scalars.Distinct fun c c' => c.lin = c'.lin) :
    s'.scalars.Distinct fun c c' => c.lin = c'.lin := by
  cases step with
  | @rootScalar labels value named available =>
    refine distinct.push Eq.symm fun id c found same => ?_
    have plain := named.brace_not_mem
    have wrapped : (s.rootScalar labels value).lin = Scalar.rootLin labels.lin := by
      rw [Session.rootScalar, default]
      rfl
    rw [wrapped] at same
    cases root : c.pureLin with
    | none =>
      obtain ⟨p, plain', rest, text⟩ := composite id c found root
      exact rootLin_ne_composite plain plain' rest (same ▸ text)
    | some lin =>
      obtain ⟨-, label, known⟩ := (ScalarSound.of_root root).1 (sound id c found)
      obtain rfl := Wrapper.wrap_inj (label.symm.trans same)
      have taken := available.2
      rw [LabelIndex.hasLin, known] at taken
      cases taken
  | @derivedScalar labels composed unknown =>
    refine distinct.push Eq.symm fun id c found same => ?_
    have same : c.lin = labels.lin := same
    cases root : c.pureLin with
    | none =>
      have fresh := Arena.find?_eq_none.1 unknown id c found
      simp [root, same] at fresh
    | some lin =>
      obtain ⟨plain, label, -⟩ := (ScalarSound.of_root root).1 (sound id c found)
      obtain ⟨p, plain', rest, text⟩ := composed.composite default sound
      exact rootLin_ne_composite plain plain' rest (by rw [← label, same, text])
  | _ => exact distinct

theorem Steps.distinctScalars (steps : (Session.new {}).Steps s) :
    s.ScalarsComposite ∧ s.scalars.Distinct fun c c' => c.lin = c'.lin := by
  induction steps with
  | refl => exact ⟨fun id c found => (nomatch found), .empty⟩
  | tail earlier step ih =>
    have default := (Steps.extends earlier).settings
    have sound := Steps.scalarsSound earlier
    exact ⟨step.scalarsComposite default sound ih.1,
      step.distinctScalars default sound ih.1 ih.2⟩

/-- Under the default settings the label of a scalar tells the scalar. -/
theorem Reachable.scalar_eq_of_lin (reachable : Reachable {} s) {id id' : ScalarId}
    {c c' : Scalar} (found : s.scalars.get? id = some c) (found' : s.scalars.get? id' = some c')
    (same : c.lin = c'.lin) : id = id' :=
  (Steps.distinctScalars reachable.steps).2 id id' c c' found found' same

/-! ## Arrays -/

/-- The label of an array tells the array. -/
theorem Reachable.array_eq_of_lin (reachable : Reachable settings s) {id id' : ArrayId}
    {a a' : RootArray} (found : s.arrays.get? id = some a) (found' : s.arrays.get? id' = some a')
    (same : s.arrayLin a = s.arrayLin a') : id = id' :=
  reachable.sound.arrayLabels.eq_of_lin found found' (Wrapper.wrap_inj same)

end Session

end Variational
