import Variational.Proofs.Terms

/-!
# What the labels of arrays tell

Arrays are found again by their linguistic label, so the label has to tell what
the array stands for. Under the default conventions it tells all but the test
space of a boundary vector, and that is told by the rows of the array.
-/

namespace Variational

/-! ## Texts with a number in them -/

namespace Labels

theorem isDigit_of_mem_toString {n : Nat} {c : Char} (member : c ∈ (toString n).toList) :
    c.isDigit = true := by
  rw [Nat.toString_eq_repr, Nat.toList_repr] at member
  exact Nat.isDigit_of_mem_toDigits (by decide) (by decide) member

/-- A text is cut in one way at the first character without a property. -/
theorem append_cons_inj {p : Char → Bool} {front front' back back' : List Char} {c d : Char}
    (holds : ∀ x ∈ front, p x = true) (holds' : ∀ x ∈ front', p x = true) (stop : p c = false)
    (stop' : p d = false) (same : front ++ c :: back = front' ++ d :: back') :
    front = front' ∧ c = d ∧ back = back' := by
  have cut : ∀ {front back : List Char} {c : Char}, (∀ x ∈ front, p x = true) → p c = false →
      (front ++ c :: back).takeWhile p = front := by
    intro front back c holds stop
    rw [List.takeWhile_append_of_pos holds, List.takeWhile_cons_of_neg (by simp [stop]),
      List.append_nil]
  have fronts : front = front' := by rw [← cut holds stop, same, cut holds' stop']
  subst fronts
  obtain ⟨rfl, rfl⟩ := List.cons.inj (List.append_cancel_left same)
  exact ⟨rfl, rfl, rfl⟩

theorem toString_append_inj {back back' : List Char} {c d : Char} {m n : Nat}
    (stop : c.isDigit = false) (stop' : d.isDigit = false)
    (same : (toString m).toList ++ c :: back = (toString n).toList ++ d :: back') :
    m = n ∧ c = d ∧ back = back' := by
  obtain ⟨numbers, marks, backs⟩ := append_cons_inj (fun x => isDigit_of_mem_toString)
    (fun x => isDigit_of_mem_toString) stop stop' same
  exact ⟨toString_injective numbers, marks, backs⟩

theorem append_toString_inj {front front' : List Char} {c d : Char} {m n : Nat}
    (stop : c.isDigit = false) (stop' : d.isDigit = false)
    (same : front ++ c :: (toString m).toList = front' ++ d :: (toString n).toList) :
    front = front' ∧ c = d ∧ m = n := by
  have reversed := congrArg List.reverse same
  simp only [List.reverse_append, List.reverse_cons, List.append_assoc, List.singleton_append]
    at reversed
  obtain ⟨numbers, marks, fronts⟩ := append_cons_inj
    (fun x member => isDigit_of_mem_toString (List.mem_reverse.1 member))
    (fun x member => isDigit_of_mem_toString (List.mem_reverse.1 member)) stop stop' reversed
  exact ⟨List.reverse_injective fronts, marks, toString_injective (List.reverse_injective numbers)⟩

/-- A text that ends in a number does not end in another character. -/
theorem concat_ne_append_toString {front front' : List Char} {c : Char} {n : Nat}
    (stop : c.isDigit = false) : front ++ [c] ≠ front' ++ (toString n).toList := by
  intro same
  have last := congrArg List.getLast? same
  rw [List.getLast?_append, List.getLast?_append] at last
  have member : c ∈ (toString n).toList := by
    refine List.mem_of_getLast? ?_
    cases digits : (toString n).toList.getLast? with
    | none => simp at digits
    | some d =>
      rw [digits] at last
      exact last.symm
  exact Bool.false_ne_true (stop.symm.trans (isDigit_of_mem_toString member))

/-- Text between a beginning and an ending, the last letter of which stands before a number. -/
theorem text_inj {opening text text' closing : String} {m n : Nat}
    (stop : closing.toList.getLast?.map Char.isDigit = some false)
    (same : opening ++ text ++ closing ++ toString m = opening ++ text' ++ closing ++ toString n) :
    text = text' := by
  obtain ⟨c, last, stop⟩ := Option.map_eq_some_iff.1 stop
  obtain ⟨front, closed⟩ := List.getLast?_eq_some_iff.1 last
  have texts := congrArg String.toList same
  simp only [String.toList_append, closed, List.append_assoc, List.singleton_append] at texts
  simp only [← List.append_assoc] at texts
  obtain ⟨fronts, -, -⟩ := append_toString_inj stop stop texts
  exact String.toList_injective (List.append_cancel_left (List.append_cancel_right fronts))

end Labels

/-! ## Spaces -/

/-- The label of a space tells its degree, its orientation and its mesh. -/
theorem Space.labelsOn_inj {m m' : Mesh} {k k' : Nat} {o o' : Orientation}
    (same : (labelsOn m k o).lin = (labelsOn m' k' o').lin) :
    k = k' ∧ o = o' ∧ m.labels.lin = m'.labels.lin := by
  have texts := congrArg String.toList same
  simp only [labelsOn, String.toList_append, toString, List.append_assoc] at texts
  have tags := List.append_cancel_left texts
  have number : ∀ {back back' : List Char}, (toString k).toList ++ ("-over-".toList ++ back) =
      (toString k').toList ++ ("-over-".toList ++ back') → k = k' ∧ back = back' := by
    intro back back' same
    obtain ⟨rfl, -, rest⟩ := Labels.toString_append_inj (by decide) (by decide) same
    exact ⟨rfl, List.append_cancel_left rest⟩
  have tag : o = o' := by
    cases o <;> cases o' <;> first | rfl | simp [Orientation.tag] at tags
  subst tag
  obtain ⟨rfl, lins⟩ := number (List.append_cancel_left (List.append_cancel_left tags))
  exact ⟨rfl, rfl, String.toList_injective lins⟩

namespace Session

variable {s s' : Session}

namespace Sound

theorem space_eq_of_lin (sound : s.Sound) {id id' : SpaceId} {sp sp' : Space}
    (found : s.spaces.get? id = some sp) (found' : s.spaces.get? id' = some sp')
    (same : sp.labels.lin = sp'.labels.lin) : id = id' := by
  obtain ⟨m, foundMesh, -, labels⟩ := sound.spaces found
  obtain ⟨m', foundMesh', -, labels'⟩ := sound.spaces found'
  rw [labels, labels'] at same
  obtain ⟨degrees, orientations, lins⟩ := Space.labelsOn_inj same
  exact sound.distinctSpaces found found' (sound.meshLabels.eq_of_lin foundMesh foundMesh' lins)
    degrees orientations

/-- The rows of the arrays on a finite space tell the space. -/
theorem space_eq_of_dofLabel (sound : s.Sound) {id id' : SpaceId} {label : String}
    (labelled : s.dofLabel id = .ok label) (labelled' : s.dofLabel id' = .ok label) : id = id' := by
  obtain ⟨sp, d, found, -, rfl⟩ := dofLabel_eq_ok_iff.1 labelled
  obtain ⟨sp', d', found', -, same⟩ := dofLabel_eq_ok_iff.1 labelled'
  have texts := congrArg String.toList same
  simp only [String.toList_append, toString, List.append_assoc] at texts
  obtain ⟨lins, -, -⟩ := Labels.append_toString_inj (by decide) (by decide) texts
  exact sound.space_eq_of_lin found found' (String.toList_injective lins)

theorem form_eq_of_pureLin (sound : s.Sound) {id id' : FormId} {f f' : Form} {lin : String}
    (found : s.forms.get? id = some f) (found' : s.forms.get? id' = some f')
    (named : f.pureLin = some lin) (named' : f'.pureLin = some lin) : id = id' :=
  Option.some.inj
    ((sound.formLabels found named).1.symm.trans (sound.formLabels found' named').1)

end Sound

end Session

/-! ## What arrays stand for -/

namespace ArrayKind

/-- Two arrays stand for the same, up to the test space of a boundary vector. -/
def Like : ArrayKind → ArrayKind → Prop
  | .wedgeVector f _, .wedgeVector g _ => f = g
  | kind, kind' => kind = kind'

/-- The first letter of the labels of arrays that are not coefficient vectors. -/
def initial : ArrayKind → Option Char
  | .vector _ => none
  | .massMatrix _ => some 'M'
  | .incidenceMatrix _ => some 'd'
  | .wedgeVector _ _ => some 'W'

end ArrayKind

namespace Session

variable {s : Session} {a a' : RootArray}

/-- The label of a coefficient vector ends in its suffix, and the label of another array
begins with its letter and ends in a number. -/
theorem Represents.initial_cases (represents : s.Represents a)
    (suffix : s.settings.conventions.linGlyphs.vectorSuffix = "+vec") :
    (a.kind.initial = none ∧ ∃ front, a.pureLin.toList = front ++ ['c']) ∨
      a.kind.initial = a.pureLin.toList.head? ∧ a.kind.initial ≠ none ∧
        ∃ front, ∃ n : Nat, a.pureLin.toList = front ++ (toString n).toList := by
  obtain ⟨sym, pureLin, shape, kind⟩ := a
  cases kind with
  | vector f =>
    obtain ⟨form, lin, rows, -, -, -, named, -⟩ := represents
    refine Or.inl ⟨rfl, lin.toList ++ "+ve".toList, ?_⟩
    rw [named, suffix, String.toList_append, List.append_assoc]
    rfl
  | massMatrix space =>
    obtain ⟨sp, rows, -, -, named, -⟩ := represents
    refine Or.inr ⟨?_, Option.some_ne_none _, ?_⟩
    · rw [named]
      simp [ArrayKind.initial, toString]
    · rw [named]
      exact ⟨_, _, String.toList_append⟩
  | incidenceMatrix space =>
    obtain ⟨sp, target, rows, cols, -, -, -, -, named, -⟩ := represents
    refine Or.inr ⟨?_, Option.some_ne_none _, ?_⟩
    · rw [named]
      simp [ArrayKind.initial, toString]
    · rw [named]
      exact ⟨_, _, String.toList_append⟩
  | wedgeVector f space =>
    obtain ⟨form, lin, sp, rows, -, -, -, -, named, -⟩ := represents
    refine Or.inr ⟨?_, Option.some_ne_none _, ?_⟩
    · rw [named]
      simp [ArrayKind.initial, toString]
    · rw [named]
      exact ⟨_, _, String.toList_append⟩

theorem Represents.initial_eq (represents : s.Represents a) (represents' : s.Represents a')
    (suffix : s.settings.conventions.linGlyphs.vectorSuffix = "+vec")
    (same : a.pureLin = a'.pureLin) : a.kind.initial = a'.kind.initial := by
  rcases represents.initial_cases suffix with ⟨none, front, text⟩ | ⟨head, -, front, n, text⟩
  · rcases represents'.initial_cases suffix with ⟨none', -⟩ | ⟨-, -, front', n, text'⟩
    · rw [none, none']
    · rw [same, text'] at text
      exact absurd text.symm (Labels.concat_ne_append_toString (by decide))
  · rcases represents'.initial_cases suffix with ⟨-, front', text'⟩ | ⟨head', -, -⟩
    · rw [same, text'] at text
      exact absurd text (Labels.concat_ne_append_toString (by decide))
    · rw [head, head', same]

/-- Arrays with one label stand for the same, up to the test space of a boundary vector. -/
theorem Sound.like_of_pureLin (sound : s.Sound) (represents : s.Represents a)
    (represents' : s.Represents a')
    (suffix : s.settings.conventions.linGlyphs.vectorSuffix = "+vec")
    (same : a.pureLin = a'.pureLin) : a.kind.Like a'.kind := by
  have initials := represents.initial_eq represents' suffix same
  obtain ⟨sym, pureLin, shape, kind⟩ := a
  obtain ⟨sym', pureLin', shape', kind'⟩ := a'
  have texts := congrArg String.toList same
  cases kind with
  | vector f =>
    cases kind' with
    | vector g =>
      obtain ⟨form, lin, rows, found, label, -, named, -⟩ := represents
      obtain ⟨form', lin', rows', found', label', -, named', -⟩ := represents'
      rw [named, named', String.toList_append, String.toList_append] at texts
      obtain rfl := String.toList_injective (List.append_cancel_right texts)
      obtain rfl := sound.form_eq_of_pureLin found found' label label'
      rfl
    | _ => cases initials
  | massMatrix space =>
    cases kind' with
    | massMatrix space' =>
      obtain ⟨sp, rows, found, -, named, -⟩ := represents
      obtain ⟨sp', rows', found', -, named', -⟩ := represents'
      have lins := Labels.text_inj (by rfl) (named.symm.trans (same.trans named'))
      obtain rfl := sound.space_eq_of_lin found found' lins
      rfl
    | _ => cases initials
  | incidenceMatrix space =>
    cases kind' with
    | incidenceMatrix space' =>
      obtain ⟨sp, target, rows, cols, found, -, -, -, named, -⟩ := represents
      obtain ⟨sp', target', rows', cols', found', -, -, -, named', -⟩ := represents'
      have lins := Labels.text_inj (by rfl) (named.symm.trans (same.trans named'))
      obtain rfl := sound.space_eq_of_lin found found' lins
      rfl
    | _ => cases initials
  | wedgeVector f space =>
    cases kind' with
    | wedgeVector g space' =>
      obtain ⟨form, lin, sp, rows, found, label, -, -, named, -⟩ := represents
      obtain ⟨form', lin', sp', rows', found', label', -, -, named', -⟩ := represents'
      obtain rfl := Labels.text_inj (by rfl) (named.symm.trans (same.trans named'))
      exact sound.form_eq_of_pureLin found found' label label'
    | _ => cases initials

end Session

end Variational
