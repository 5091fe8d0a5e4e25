import Mathlib.Data.List.Induction
import Mathlib.Data.List.Perm.Basic
import Variational.Proofs.Equations
import Variational.Proofs.WeakForm.Patterns

/-!
# Rearranging keeps equations

A rearrangement succeeds if and only if each of its rules lists all positions of
an equation, and it keeps the residual of every equation. The step lemma
`WeakFormulation.rearrange_append` says what one more rule does; the properties
of all rules follow by induction on the rules from the end.
-/

namespace Variational

/-! ## One rule -/

namespace Rearrangement

variable {pattern : String} {i size : Nat}

theorem checkDistinct_eq_ok_iff {seen positions : List Nat} :
    checkDistinct pattern i size seen positions = .ok () ↔
      (∀ p ∈ positions, p < size) ∧ positions.Nodup ∧ ∀ p ∈ positions, p ∉ seen := by
  induction positions generalizing seen with
  | nil => simp [checkDistinct]
  | cons p rest ih =>
    rw [checkDistinct]
    by_cases inside : size ≤ p
    · rw [if_pos inside]
      simp only [Outcome.reject_eq_ok, false_iff]
      intro given
      rcases given with ⟨held, -⟩
      exact absurd (held p List.mem_cons_self) (Nat.not_lt.2 inside)
    · rw [if_neg inside]
      by_cases repeated : p ∈ seen
      · rw [if_pos repeated]
        simp only [Outcome.reject_eq_ok, false_iff]
        intro given
        rcases given with ⟨-, -, fresh⟩
        exact fresh p List.mem_cons_self repeated
      · rw [if_neg repeated, ih]
        simp only [List.forall_mem_cons, List.nodup_cons]
        constructor
        · intro given
          rcases given with ⟨held, distinct, fresh⟩
          refine ⟨⟨Nat.not_le.1 inside, held⟩, ⟨fun member => ?_, distinct⟩, repeated,
            fun q member inSeen => fresh q member (List.mem_cons_of_mem _ inSeen)⟩
          exact fresh p member List.mem_cons_self
        · intro given
          rcases given with ⟨⟨-, held⟩, ⟨own, distinct⟩, -, fresh⟩
          refine ⟨held, distinct, fun q member inSeen => ?_⟩
          rcases List.mem_cons.1 inSeen with rfl | inSeen
          · exact own member
          · exact fresh q member inSeen

theorem checkComplete_eq_ok_iff {positions : List Nat} :
    checkComplete pattern i size positions = .ok () ↔ ∀ p < size, p ∈ positions := by
  rw [checkComplete]
  cases missing : (List.range size).find? (· ∉ positions) with
  | some p =>
    have absent : p ∉ positions := by simpa using List.find?_some missing
    simp only [Outcome.reject_eq_ok, false_iff]
    intro complete
    exact absent (complete p (List.mem_range.1 (List.mem_of_find?_eq_some missing)))
  | none =>
    simpa using List.find?_eq_none.1 missing

/-- A rule makes an equation of another one if its pattern lists every position once. -/
theorem apply_eq_ok_iff {α : Type} {e e' : Equation α} :
    apply pattern i e = .ok e' ↔ ∃ left right, Lists pattern left right ∧
      (left ++ right).Perm (List.range e.size) ∧ e' = e.rearranged left right := by
  have permutation : ∀ positions : List Nat,
      (∀ p ∈ positions, p < e.size) ∧ positions.Nodup ∧ (∀ p < e.size, p ∈ positions) ↔
        positions.Perm (List.range e.size) := by
    intro positions
    constructor
    · intro given
      rcases given with ⟨inside, distinct, complete⟩
      refine (List.perm_ext_iff_of_nodup distinct List.nodup_range).2 fun p => ?_
      rw [List.mem_range]
      exact ⟨inside p, complete p⟩
    · intro perm
      refine ⟨fun p member => List.mem_range.1 (perm.mem_iff.1 member),
        perm.nodup_iff.2 List.nodup_range, fun p inside => perm.mem_iff.2 (List.mem_range.2 inside)⟩
  simp only [apply, Outcome.bind_eq_ok, Outcome.pure_eq_ok, ← permutation]
  constructor
  · intro given
    rcases given with ⟨⟨left, right⟩, run, _, distinctness, _, completeness, rfl⟩
    obtain ⟨inside, distinct, -⟩ := checkDistinct_eq_ok_iff.1 distinctness
    exact ⟨left, right, read_eq_ok_iff.1 run,
      ⟨inside, distinct, checkComplete_eq_ok_iff.1 completeness⟩, rfl⟩
  · intro given
    rcases given with ⟨left, right, lists, ⟨inside, distinct, complete⟩, rfl⟩
    exact ⟨(left, right), read_eq_ok_iff.2 lists, (),
      checkDistinct_eq_ok_iff.2 ⟨inside, distinct, by simp⟩, (),
      checkComplete_eq_ok_iff.2 complete, rfl⟩

/-- The places of the positions in a pattern are words, as the positions are. -/
theorem Lists.idxOf_lt {left right : List Nat} (lists : Lists pattern left right)
    (perm : (left ++ right).Perm (List.range size)) {p : Nat} (inside : p < size) :
    (left ++ right).idxOf p < UInt64.size := by
  have listed : ∀ q < size, q ∈ left ++ right := fun q held =>
    perm.mem_iff.2 (List.mem_range.2 held)
  have place : (left ++ right).idxOf p < size := by
    simpa [perm.length_eq] using List.idxOf_lt_length_of_mem (listed p inside)
  exact Nat.lt_of_le_of_lt (Nat.le_sub_one_of_lt place) (lists.lt (listed (size - 1) (by omega)))

/-- The places of the positions in a pattern make up the pattern that undoes it. -/
theorem exists_undo {α : Type} {e e' : Equation α} (applied : apply pattern i e = .ok e') :
    ∃ inverse, apply inverse i e' = .ok e := by
  obtain ⟨left, right, lists, perm, rfl⟩ := apply_eq_ok_iff.1 applied
  let leftBack := (List.range e.left.length).map ((left ++ right).idxOf ·)
  let rightBack := (List.range' e.left.length e.right.length).map ((left ++ right).idxOf ·)
  have listsBack : Lists (write leftBack rightBack) leftBack rightBack := by
    refine lists_write (fun q member => ?_) (fun q member => ?_)
    · obtain ⟨p, held, rfl⟩ := List.mem_map.1 member
      exact lists.idxOf_lt perm (Equation.lt_size_of_mem_range held)
    · obtain ⟨p, held, rfl⟩ := List.mem_map.1 member
      exact lists.idxOf_lt perm (Equation.lt_size_of_mem_range' held)
  refine ⟨_, apply_eq_ok_iff.2 ⟨leftBack, rightBack, listsBack, ?_, ?_⟩⟩
  · rw [← List.map_append, Equation.range_size, Equation.size_rearranged perm]
    exact Equation.perm_map_idxOf perm
  · exact (Equation.rearranged_idxOf perm).symm

end Rearrangement

namespace WeakFormulation

open Rearrangement

variable {w w' : WeakFormulation} {rules : List (Nat × String)}

/-! ## Runs of rules -/

theorem rearrange_nil : w.rearrange [] = .ok w' ↔ w' = w := by
  rw [rearrange, List.foldlM_nil]
  exact ⟨fun run => (Outcome.pure_eq_ok.1 run).symm, fun same => same ▸ rfl⟩

/-- One more rule rearranges the equation as it was before all rules. -/
theorem rearrange_append {rule : Nat × String} :
    w.rearrange (rules ++ [rule]) = .ok w' ↔
      ∃ mid e e', w.rearrange rules = .ok mid ∧ w.equations[rule.1]? = some e ∧
        apply rule.2 rule.1 e = .ok e' ∧
        w' = { mid with equations := mid.equations.set rule.1 e' } := by
  simp only [rearrange, List.foldlM_append, List.foldlM_cons, List.foldlM_nil, Outcome.bind_eq_ok,
    Outcome.pure_eq_ok]
  constructor
  · intro given
    rcases given with ⟨_, ⟨equations, run, _, set, rfl⟩, rfl⟩
    cases known : w.equations[rule.1]? with
    | none => simp [known] at set
    | some e =>
      simp only [known, Outcome.bind_eq_ok, Outcome.pure_eq_ok] at set
      obtain ⟨e', applied, rfl⟩ := set
      exact ⟨_, e, e', ⟨equations, run, rfl⟩, rfl, applied, rfl⟩
  · intro given
    rcases given with ⟨_, e, e', ⟨equations, run, rfl⟩, known, applied, rfl⟩
    refine ⟨_, ⟨equations, run, _, ?_, rfl⟩, rfl⟩
    simp only [known, Outcome.bind_eq_ok, Outcome.pure_eq_ok]
    exact ⟨e', applied, rfl⟩

theorem rearrange_singleton {i : Nat} {pattern : String} :
    w.rearrange [(i, pattern)] = .ok w' ↔ ∃ e e', w.equations[i]? = some e ∧
      apply pattern i e = .ok e' ∧ w' = { w with equations := w.equations.set i e' } := by
  rw [← List.nil_append [(i, pattern)], rearrange_append]
  constructor
  · intro given
    rcases given with ⟨mid, e, e', none, known, applied, rfl⟩
    obtain rfl := rearrange_nil.1 none
    exact ⟨e, e', known, applied, rfl⟩
  · intro given
    rcases given with ⟨e, e', known, applied, rfl⟩
    exact ⟨w, e, e', rearrange_nil.2 rfl, known, applied, rfl⟩

/-- All rules succeed if and only if each of them applies to its equation. -/
theorem exists_rearrange_iff : (∃ w', w.rearrange rules = .ok w') ↔
    ∀ rule ∈ rules, ∃ e e', w.equations[rule.1]? = some e ∧ apply rule.2 rule.1 e = .ok e' := by
  induction rules using List.reverseRecOn with
  | nil => simp [rearrange_nil]
  | append_singleton rules rule ih =>
    simp only [List.forall_mem_append, List.forall_mem_singleton, ← ih, rearrange_append]
    constructor
    · intro given
      rcases given with ⟨w', mid, e, e', run, known, applied, -⟩
      exact ⟨⟨mid, run⟩, e, e', known, applied⟩
    · intro given
      rcases given with ⟨⟨mid, run⟩, e, e', known, applied⟩
      exact ⟨_, mid, e, e', run, known, applied, rfl⟩

/-- Nothing but equations changes. -/
theorem frame_of_rearrange (run : w.rearrange rules = .ok w') :
    w'.mesh = w.mesh ∧ w'.testForms = w.testForms ∧ w'.unknowns = w.unknowns ∧
      w'.equations.length = w.equations.length := by
  induction rules using List.reverseRecOn generalizing w' with
  | nil => simp [rearrange_nil.1 run]
  | append_singleton rules rule ih =>
    obtain ⟨mid, e, e', before, -, -, rfl⟩ := rearrange_append.1 run
    simpa using ih before

/-- An equation is what the last rule that names it makes of it. -/
theorem getElem?_of_rearrange (run : w.rearrange rules = .ok w') {i : Nat} {e : Equation Term}
    (known : w.equations[i]? = some e) :
    (∀ rule ∈ rules, rule.1 ≠ i) ∧ w'.equations[i]? = some e ∨
      ∃ pattern e', (rules.filter (·.1 = i)).getLast? = some (i, pattern) ∧
        apply pattern i e = .ok e' ∧ w'.equations[i]? = some e' := by
  induction rules using List.reverseRecOn generalizing w' with
  | nil => simp [rearrange_nil.1 run, known]
  | append_singleton rules rule ih =>
    obtain ⟨mid, e₁, e', before, known', applied, rfl⟩ := rearrange_append.1 run
    rw [List.filter_append, List.filter_singleton]
    by_cases names : rule.1 = i
    · subst names
      rw [known'] at known
      cases known
      have inside : rule.1 < mid.equations.length := by
        rw [(frame_of_rearrange before).2.2.2]
        exact (List.getElem?_eq_some_iff.1 known').1
      refine Or.inr ⟨rule.2, e', by simp, applied, ?_⟩
      rw [List.getElem?_set_self inside]
    · rw [List.getElem?_set_ne names]
      simpa [names, or_imp, forall_and] using ih before

/-! ## The meaning of a rearrangement -/

/-- Rearranging succeeds exactly for rules that list every position of an existing
equation once. It keeps the residual and the terms of every equation and all else of the
formulation, puts every listed term at its place, and can be undone. -/
theorem rearrange_preserves (w : WeakFormulation) (rules : List (Nat × String)) :
    ((∃ w', w.rearrange rules = .ok w') ↔
      ∀ rule ∈ rules, ∃ e left right, w.equations[rule.1]? = some e ∧
        Lists rule.2 left right ∧ (left ++ right).Perm (List.range e.size)) ∧
    (∀ w', w.rearrange rules = .ok w' →
      w'.mesh = w.mesh ∧ w'.testForms = w.testForms ∧ w'.unknowns = w.unknowns ∧
      w'.equations.length = w.equations.length ∧
      ∀ i e, w.equations[i]? = some e → ∃ e', w'.equations[i]? = some e' ∧
        (∀ {G : Type*} [AddCommGroup G] (value : Term → G),
          e'.residual value = e.residual value) ∧
        (e'.terms.map Signed.value).Perm (e.terms.map Signed.value) ∧
        ((∀ rule ∈ rules, rule.1 ≠ i) → e' = e) ∧
        (∀ pattern, (rules.filter (·.1 = i)).getLast? = some (i, pattern) →
          ∃ left right, Lists pattern left right ∧
            e'.left.map some = left.map (e.seenFrom .left) ∧
            e'.right.map some = right.map (e.seenFrom .right))) ∧
    (∀ i pattern w', w.rearrange [(i, pattern)] = .ok w' →
      ∃ inverse, w'.rearrange [(i, inverse)] = .ok w) := by
  refine ⟨?succeeds, ?keeps, ?undone⟩
  case succeeds =>
    simp only [exists_rearrange_iff, apply_eq_ok_iff]
    refine forall_congr' fun rule => forall_congr' fun _ => exists_congr fun e => ?_
    constructor
    · intro given
      rcases given with ⟨_, known, left, right, lists, perm, rfl⟩
      exact ⟨left, right, known, lists, perm⟩
    · intro given
      rcases given with ⟨left, right, known, lists, perm⟩
      exact ⟨_, known, left, right, lists, perm, rfl⟩
  case keeps =>
    intro w' run
    obtain ⟨mesh, testForms, unknowns, length⟩ := frame_of_rearrange run
    refine ⟨mesh, testForms, unknowns, length, fun i e known => ?_⟩
    rcases getElem?_of_rearrange run known with ⟨unnamed, kept⟩ | ⟨pattern, e', last, applied, new⟩
    · refine ⟨e, kept, fun _ => rfl, .refl _, fun _ => rfl, fun pattern last => ?_⟩
      have named := List.mem_filter.1 (List.mem_of_getLast? last)
      exact absurd rfl (unnamed _ named.1)
    · obtain ⟨left, right, lists, perm, rfl⟩ := apply_eq_ok_iff.1 applied
      have inside : ∀ p ∈ left ++ right, p < e.size := fun p member =>
        List.mem_range.1 (perm.mem_iff.1 member)
      refine ⟨_, new, fun _ => Equation.residual_rearranged_of_perm perm,
        Equation.values_rearranged_perm perm, fun unnamed => ?_, fun pattern' last' => ?_⟩
      · have named := List.mem_filter.1 (List.mem_of_getLast? last)
        exact absurd rfl (unnamed _ named.1)
      · rw [last] at last'
        cases last'
        exact ⟨left, right, lists,
          Equation.map_some_placed .left fun p member => inside p (List.mem_append_left _ member),
          Equation.map_some_placed .right fun p member => inside p (List.mem_append_right _ member)⟩
  case undone =>
    intro i pattern w' run
    obtain ⟨e, e', known, applied, rfl⟩ := rearrange_singleton.1 run
    obtain ⟨inverse, undone⟩ := exists_undo applied
    obtain ⟨inside, rfl⟩ := List.getElem?_eq_some_iff.1 known
    refine ⟨inverse, rearrange_singleton.2 ⟨e', _, List.getElem?_set_self inside, undone, ?_⟩⟩
    rw [List.set_set, List.set_getElem_self]

/-- The pattern `2,0=1` makes `a - b = c` into `-c + a = b`. -/
theorem rearrange_preserves_rotation :
    let a : Term := ⟨.innerProduct, ⟨1⟩, ⟨0⟩, ⟨0⟩, "a", "a"⟩
    let b : Term := ⟨.innerProduct, ⟨2⟩, ⟨0⟩, ⟨0⟩, "b", "b"⟩
    let c : Term := ⟨.innerProduct, ⟨3⟩, ⟨0⟩, ⟨0⟩, "c", "c"⟩
    let w : WeakFormulation := ⟨⟨0⟩, [⟨[⟨.plus, a⟩, ⟨.minus, b⟩], [⟨.plus, c⟩]⟩], [⟨0⟩], none⟩
    ∃ w', w.rearrange [(0, write [2, 0] [1])] = .ok w' ∧
      w'.equations[0]? = some ⟨[⟨.minus, c⟩, ⟨.plus, a⟩], [⟨.plus, b⟩]⟩ := by
  intro a b c w
  have lists : Lists (write [2, 0] [1]) [2, 0] [1] := lists_write (by decide) (by decide)
  obtain ⟨succeeds, keeps, -⟩ := rearrange_preserves.{0} w [(0, write [2, 0] [1])]
  obtain ⟨w', run⟩ := succeeds.2 (by
    intro rule member
    rw [List.mem_singleton.1 member]
    exact ⟨_, [2, 0], [1], rfl, lists, by decide⟩)
  obtain ⟨-, -, -, -, each⟩ := keeps w' run
  obtain ⟨⟨left, right⟩, known, -, -, -, last⟩ := each 0 _ rfl
  obtain ⟨ls, rs, listed, seenLeft, seenRight⟩ := last _ rfl
  cases (read_eq_ok_iff.2 listed).symm.trans (read_eq_ok_iff.2 lists)
  have injective {xs ys : List (Signed Term)} : xs.map some = ys.map some → xs = ys :=
    (List.map_inj_right fun _ _ => Option.some.inj).1
  obtain rfl : left = [⟨.minus, c⟩, ⟨.plus, a⟩] := injective seenLeft
  obtain rfl : right = [⟨.plus, b⟩] := injective seenRight
  exact ⟨w', run, known⟩

end WeakFormulation

end Variational
