import Mathlib.Algebra.BigOperators.Group.List.Basic
import Variational.Equation

/-!
# The meaning of equations

Every assignment of values in a commutative group to the terms of an equation
gives the equation a residual: the signed sum of its left minus that of its
right. Rearranging an equation by a permutation of its positions and replacing a
term by terms of the same total keep the residual.
-/

namespace Variational

variable {α : Type} {G : Type*} [AddCommGroup G] {value : α → G} {e : Equation α}

/-! ## Values of terms and equations -/

/-- The value of a term with its sign. -/
def Signed.valued (value : α → G) (t : Signed α) : G :=
  match t.sign with
  | .plus => value t.value
  | .minus => -value t.value

theorem Signed.valued_flipped (t : Signed α) : t.flipped.valued value = -t.valued value := by
  obtain ⟨sign, x⟩ := t
  cases sign
  · rfl
  · exact (neg_neg (value x)).symm

/-- The signed sum of a list of terms. -/
def Equation.total (value : α → G) (terms : List (Signed α)) : G :=
  (terms.map (Signed.valued value)).sum

/-- The signed sum of the left terms minus the signed sum of the right ones. -/
def Equation.residual (value : α → G) (e : Equation α) : G :=
  total value e.left - total value e.right

namespace Equation

@[simp] theorem total_append (xs ys : List (Signed α)) :
    total value (xs ++ ys) = total value xs + total value ys := by
  simp [total]

theorem total_flipped (xs : List (Signed α)) :
    total value (xs.map Signed.flipped) = -total value xs := by
  rw [total, total, List.sum_neg, List.map_map, List.map_map]
  exact congrArg List.sum (List.map_congr_left fun t _ => t.valued_flipped)

theorem total_perm {xs ys : List (Signed α)} (perm : xs.Perm ys) :
    total value xs = total value ys :=
  (perm.map _).sum_eq

/-- A term that is a difference is two terms of opposite signs. -/
theorem total_of_sub {t : Signed α} {x y : α} (difference : value t.value = value x - value y) :
    total value [⟨t.sign, x⟩, ⟨t.sign.flipped, y⟩] = t.valued value := by
  obtain ⟨sign, z⟩ := t
  dsimp only at difference
  cases sign with
  | plus => simp [total, Signed.valued, Sign.flipped, difference, sub_eq_add_neg]
  | minus => simp [total, Signed.valued, Sign.flipped, difference, sub_eq_neg_add]

/-! ## Terms seen from a side -/

/-- The term at a position as it reads on a side: a term of the other side has the
opposite sign there. -/
def seenFrom (e : Equation α) (side : Side) (position : Nat) : Option (Signed α) :=
  (e.get? position).map fun t =>
    if position < e.left.length ↔ side = .left then t else t.flipped

theorem seenFrom_right (e : Equation α) (position : Nat) :
    e.seenFrom .right position = (e.seenFrom .left position).map Signed.flipped := by
  rw [seenFrom, seenFrom, Option.map_map]
  congr 1
  funext t
  by_cases onLeft : position < e.left.length
  · simp [onLeft]
  · obtain ⟨sign, x⟩ := t
    simp [onLeft, Signed.flipped]

theorem placed_eq (e : Equation α) (side : Side) (positions : List Nat) :
    e.placed side positions = positions.filterMap (e.seenFrom side) := by
  refine List.filterMap_congr fun position _ => ?_
  rw [seenFrom]
  cases located : e.locate position with
  | none =>
    have beyond : e.size ≤ position := by
      rw [← Nat.not_lt, ← locate_isSome_iff, located]
      simp
    rw [get?, List.getElem?_eq_none (by rwa [length_terms])]
    rfl
  | some place =>
    obtain ⟨origin, place⟩ := place
    rw [get?_eq_of_locate located]
    have onLeft : (position < e.left.length) ↔ origin = .left := by
      simp only [locate] at located
      split at located
      · cases located
        simp [*]
      · split at located
        · cases located
          simp [*]
        · cases located
    simp only [Option.bind_eq_bind, Option.bind_some, Option.pure_def, onLeft]
    cases (e.side origin)[place]? with
    | none => rfl
    | some t =>
      rw [Option.bind_some, Option.map_some]
      congr 1
      cases origin <;> cases side <;> simp

/-- Positions of terms are placed one for one. -/
theorem map_some_placed (side : Side) {positions : List Nat}
    (inside : ∀ p ∈ positions, p < e.size) :
    (e.placed side positions).map some = positions.map (e.seenFrom side) := by
  rw [placed_eq]
  induction positions with
  | nil => rfl
  | cons p ps ih =>
    have held : p < e.terms.length := by
      rw [length_terms]
      exact inside p List.mem_cons_self
    obtain ⟨t, seen⟩ : ∃ t, e.seenFrom side p = some t := by
      rw [seenFrom, get?, List.getElem?_eq_getElem held]
      exact ⟨_, rfl⟩
    rw [List.filterMap_cons_some seen, List.map_cons, List.map_cons, seen,
      ih fun q member => inside q (List.mem_cons_of_mem p member)]

theorem getElem?_placed (side : Side) {positions : List Nat}
    (inside : ∀ p ∈ positions, p < e.size) (k : Nat) :
    (e.placed side positions)[k]? = positions[k]?.bind (e.seenFrom side) := by
  have entries := congrArg (·[k]?) (map_some_placed side inside)
  simp only [List.getElem?_map] at entries
  cases placed : (e.placed side positions)[k]? <;>
    cases listed : positions[k]? <;> simp_all

theorem length_placed (side : Side) {positions : List Nat}
    (inside : ∀ p ∈ positions, p < e.size) :
    (e.placed side positions).length = positions.length := by
  simpa using congrArg List.length (map_some_placed side inside)

/-! ## Rearranged equations -/

theorem lt_size_of_mem_range {p : Nat} (member : p ∈ List.range e.left.length) : p < e.size := by
  have := List.mem_range.1 member
  rw [size]
  omega

theorem lt_size_of_mem_range' {p : Nat}
    (member : p ∈ List.range' e.left.length e.right.length) : p < e.size := by
  have := List.mem_range'_1.1 member
  rw [size]
  omega

/-- Listing every position where it stands changes nothing. -/
theorem rearranged_self (e : Equation α) :
    e.rearranged (List.range e.left.length) (List.range' e.left.length e.right.length) = e := by
  refine Equation.ext (List.ext_getElem? fun k => ?_) (List.ext_getElem? fun k => ?_)
  · rw [rearranged, getElem?_placed .left fun p => lt_size_of_mem_range]
    by_cases held : k < e.left.length
    · rw [List.getElem?_range held, Option.bind_some, seenFrom, get?, terms,
        List.getElem?_append_left held]
      simp [held]
    · rw [List.getElem?_eq_none (by simpa using held), List.getElem?_eq_none (by omega)]
      rfl
  · rw [rearranged, getElem?_placed .right fun p => lt_size_of_mem_range']
    by_cases held : k < e.right.length
    · rw [List.getElem?_range' held, Option.bind_some, seenFrom, get?, terms, Nat.one_mul,
        List.getElem?_append_right (Nat.le_add_right _ _), Nat.add_sub_cancel_left]
      simp
    · rw [List.getElem?_eq_none (by simpa using held), List.getElem?_eq_none (by omega)]
      rfl

/-- The residual of a rearranged equation is the signed sum of the terms at the listed
positions, as they read on the left. -/
theorem residual_rearranged (e : Equation α) (left right : List Nat) :
    (e.rearranged left right).residual value =
      total value ((left ++ right).filterMap (e.seenFrom .left)) := by
  have flips : e.placed .right right = (right.filterMap (e.seenFrom .left)).map Signed.flipped := by
    rw [placed_eq, List.map_filterMap]
    exact List.filterMap_congr fun p _ => e.seenFrom_right p
  rw [residual, rearranged, flips, placed_eq, total_flipped, sub_neg_eq_add, List.filterMap_append,
    total_append]

theorem range_size (e : Equation α) : List.range e.left.length ++
    List.range' e.left.length e.right.length = List.range e.size := by
  rw [size, List.range_eq_range', List.range_eq_range', ← List.range'_append_1, Nat.zero_add]

/-- A permutation of all positions keeps the residual. -/
theorem residual_rearranged_of_perm {left right : List Nat}
    (perm : (left ++ right).Perm (List.range e.size)) :
    (e.rearranged left right).residual value = e.residual value := by
  calc (e.rearranged left right).residual value
      = total value ((left ++ right).filterMap (e.seenFrom .left)) :=
        residual_rearranged e left right
    _ = total value ((List.range e.size).filterMap (e.seenFrom .left)) :=
      total_perm (perm.filterMap _)
    _ = e.residual value := by rw [← range_size, ← residual_rearranged, rearranged_self]

theorem values_placed (e : Equation α) (side : Side) (positions : List Nat) :
    (e.placed side positions).map Signed.value =
      positions.filterMap fun p => (e.get? p).map Signed.value := by
  rw [placed_eq, List.map_filterMap]
  refine List.filterMap_congr fun p _ => ?_
  rw [seenFrom, Option.map_map]
  congr 1
  funext t
  simp only [Function.comp_apply]
  split <;> rfl

/-- A permutation of all positions keeps every term as often as it is there. -/
theorem values_rearranged_perm {left right : List Nat}
    (perm : (left ++ right).Perm (List.range e.size)) :
    ((e.rearranged left right).terms.map Signed.value).Perm (e.terms.map Signed.value) := by
  have listed : ∀ left right, (e.rearranged left right).terms.map Signed.value =
      (left ++ right).filterMap fun p => (e.get? p).map Signed.value := fun left right => by
    rw [terms, List.map_append, rearranged, values_placed, values_placed, List.filterMap_append]
  have self := listed (List.range e.left.length) (List.range' e.left.length e.right.length)
  rw [rearranged_self, range_size] at self
  rw [listed, self]
  exact perm.filterMap _

/-! ## Undoing a rearrangement -/

/-- The term that a rearrangement puts at a position reads on a side as it did before. -/
theorem seenFrom_rearranged {left right : List Nat} (inside : ∀ p ∈ left ++ right, p < e.size)
    (side : Side) {k p : Nat} (listed : (left ++ right)[k]? = some p) :
    (e.rearranged left right).seenFrom side k = e.seenFrom side p := by
  have insideLeft : ∀ q ∈ left, q < e.size := fun q member =>
    inside q (List.mem_append_left _ member)
  have insideRight : ∀ q ∈ right, q < e.size := fun q member =>
    inside q (List.mem_append_right _ member)
  have length := length_placed .left insideLeft
  rw [seenFrom, get?, terms, rearranged]
  by_cases onLeft : k < left.length
  · rw [List.getElem?_append_left onLeft] at listed
    rw [List.getElem?_append_left (by rwa [length]), getElem?_placed .left insideLeft, listed,
      Option.bind_some, length]
    cases side with
    | left => simp [onLeft]
    | right => simp [onLeft, seenFrom_right]
  · rw [List.getElem?_append_right (Nat.not_lt.1 onLeft)] at listed
    rw [List.getElem?_append_right (by rw [length]; omega), length,
      getElem?_placed .right insideRight, listed, Option.bind_some]
    cases side with
    | left =>
      rw [seenFrom_right, Option.map_map]
      simp [onLeft, Signed.flipped, Function.comp_def]
    | right => simp [onLeft]

theorem size_rearranged {left right : List Nat}
    (perm : (left ++ right).Perm (List.range e.size)) :
    (e.rearranged left right).size = e.size := by
  have inside : ∀ p ∈ left ++ right, p < e.size := fun p member =>
    List.mem_range.1 (perm.mem_iff.1 member)
  rw [size, rearranged,
    length_placed .left fun p member => inside p (List.mem_append_left _ member),
    length_placed .right fun p member => inside p (List.mem_append_right _ member),
    ← List.length_append, perm.length_eq, List.length_range]

/-- The places of all positions in a permutation of them are a permutation as well. -/
theorem perm_map_idxOf {positions : List Nat} {n : Nat} (perm : positions.Perm (List.range n)) :
    ((List.range n).map (positions.idxOf ·)).Perm (List.range n) := by
  have distinct : positions.Nodup := perm.nodup_iff.2 List.nodup_range
  have counted : positions.map (positions.idxOf ·) = List.range n := by
    refine List.ext_getElem (by simpa using perm.length_eq) fun k held _ => ?_
    rw [List.getElem_map, List.getElem_range, distinct.idxOf_getElem]
  calc ((List.range n).map (positions.idxOf ·)).Perm (positions.map (positions.idxOf ·)) :=
      (perm.map _).symm
    _ = List.range n := counted

/-- Listing the place of every position in a rearrangement undoes it. -/
theorem rearranged_idxOf {left right : List Nat}
    (perm : (left ++ right).Perm (List.range e.size)) :
    (e.rearranged left right).rearranged
      ((List.range e.left.length).map ((left ++ right).idxOf ·))
      ((List.range' e.left.length e.right.length).map ((left ++ right).idxOf ·)) = e := by
  have inside : ∀ p ∈ left ++ right, p < e.size := fun p member =>
    List.mem_range.1 (perm.mem_iff.1 member)
  have back : ∀ (side : Side) (positions : List Nat), (∀ p ∈ positions, p < e.size) →
      (e.rearranged left right).placed side (positions.map ((left ++ right).idxOf ·)) =
        e.placed side positions := by
    intro side positions held
    rw [placed_eq, placed_eq, List.filterMap_map]
    refine List.filterMap_congr fun p member => seenFrom_rearranged inside side ?_
    have listed : p ∈ left ++ right := perm.mem_iff.2 (List.mem_range.2 (held p member))
    rw [List.getElem?_eq_getElem (List.idxOf_lt_length_of_mem listed), List.getElem_idxOf]
  rw [rearranged, back .left _ fun p => lt_size_of_mem_range,
    back .right _ fun p => lt_size_of_mem_range']
  exact rearranged_self e

/-! ## Spliced equations -/

/-- The position of the first term of a side. -/
def offset (e : Equation α) : Side → Nat
  | .left => 0
  | .right => e.left.length

/-- A side begins where it did if the other sides stay. -/
theorem offset_eq {e' : Equation α} {side : Side}
    (others : ∀ other, other ≠ side → e'.side other = e.side other) :
    e'.offset side = e.offset side := by
  cases side with
  | left => rfl
  | right => exact congrArg List.length (others .left (by decide))

/-- A term at a position of an equation, between the terms before and after it on a side. -/
def StandsAt (e : Equation α) (position : Nat) (side : Side) (before : List (Signed α))
    (t : Signed α) (after : List (Signed α)) : Prop :=
  e.side side = before ++ t :: after ∧ position = before.length + e.offset side

variable {position : Nat} {side : Side} {before after new : List (Signed α)} {t : Signed α}

theorem StandsAt.locate_eq (stands : e.StandsAt position side before t after) :
    e.locate position = some (side, before.length) := by
  obtain ⟨split, rfl⟩ := stands
  have length := congrArg List.length split
  cases side with
  | left =>
    simp only [Equation.side, List.length_append, List.length_cons] at length
    rw [offset, locate, if_pos (by omega)]
    rfl
  | right =>
    simp only [Equation.side, List.length_append, List.length_cons] at length
    rw [offset, locate, if_neg (by omega), if_pos (by rw [size]; omega), Nat.add_sub_cancel]

theorem StandsAt.get?_eq (stands : e.StandsAt position side before t after) :
    e.get? position = some t := by
  rw [get?_eq_of_locate stands.locate_eq, stands.1]
  simp

theorem StandsAt.mem_terms (stands : e.StandsAt position side before t after) : t ∈ e.terms :=
  List.mem_of_getElem? stands.get?_eq

/-- A term that is located stands there. -/
theorem standsAt_of_locate {place : Nat} (located : e.locate position = some (side, place))
    (found : e.get? position = some t) : ∃ before after, e.StandsAt position side before t after ∧
      before.length = place := by
  rw [get?_eq_of_locate located] at found
  obtain ⟨held, rfl⟩ := List.getElem?_eq_some_iff.1 found
  refine ⟨(e.side side).take place, (e.side side).drop (place + 1), ⟨?_, ?_⟩, ?_⟩
  · rw [List.cons_getElem_drop_succ, List.take_append_drop]
  · rw [List.length_take, Nat.min_eq_left (Nat.le_of_lt held)]
    simp only [locate] at located
    split at located
    · cases located
      rfl
    · split at located
      · cases located
        rw [offset]
        omega
      · cases located
  · rw [List.length_take, Nat.min_eq_left (Nat.le_of_lt held)]

theorem StandsAt.side_splice (stands : e.StandsAt position side before t after) :
    (e.splice side before.length new).side side = before ++ new ++ after := by
  have split := stands.1
  cases side with
  | left | right =>
    simp only [Equation.side] at split
    simp [splice, Equation.side, split]

/-- The other side of a spliced equation stays as it is. -/
theorem side_splice_of_ne {other : Side} (differs : other ≠ side) (place : Nat) :
    (e.splice side place new).side other = e.side other := by
  cases side <;> cases other
  · exact absurd rfl differs
  · rfl
  · rfl
  · exact absurd rfl differs

/-- An equation with other terms in the place of one is the spliced equation. -/
theorem StandsAt.eq_splice (stands : e.StandsAt position side before t after) {e' : Equation α}
    (own : e'.side side = before ++ new ++ after)
    (others : ∀ other, other ≠ side → e'.side other = e.side other) :
    e' = e.splice side before.length new := by
  have same (other : Side) : e'.side other = (e.splice side before.length new).side other := by
    by_cases here : other = side
    · rw [here, own, stands.side_splice]
    · rw [others other here, side_splice_of_ne here]
  exact Equation.ext (same .left) (same .right)

/-- A term of a spliced equation is a new one or was there. -/
theorem StandsAt.mem_terms_splice (stands : e.StandsAt position side before t after)
    {x : Signed α} (member : x ∈ (e.splice side before.length new).terms) :
    x ∈ new ∨ x ∈ e.terms := by
  have split := stands.1
  have own : (e.splice side before.length new).side side = _ := stands.side_splice
  cases side with
  | left =>
    have right : (e.splice .left before.length new).right = e.right := rfl
    simp only [Equation.side] at split own
    simp only [terms, List.mem_append, own, right, split, List.mem_cons] at member ⊢
    tauto
  | right =>
    have left : (e.splice .right before.length new).left = e.left := rfl
    simp only [Equation.side] at split own
    simp only [terms, List.mem_append, own, left, split, List.mem_cons] at member ⊢
    tauto

variable (new) in
theorem StandsAt.size_splice (stands : e.StandsAt position side before t after) :
    (e.splice side before.length new).size + 1 = e.size + new.length := by
  have split := congrArg List.length stands.1
  have own : ((e.splice side before.length new).side side).length = _ :=
    congrArg List.length stands.side_splice
  simp only [List.length_append, List.length_cons] at split own
  cases side with
  | left =>
    have right : (e.splice .left before.length new).right = e.right := rfl
    simp only [Equation.side] at split own
    rw [size, size, right]
    omega
  | right =>
    have left : (e.splice .right before.length new).left = e.left := rfl
    simp only [Equation.side] at split own
    rw [size, size, left]
    omega

/-- Replacing a term by terms of the same total keeps the residual. -/
theorem StandsAt.residual_splice (stands : e.StandsAt position side before t after)
    (same : total value new = t.valued value) :
    (e.splice side before.length new).residual value = e.residual value := by
  have split := stands.1
  have own : total value ((e.splice side before.length new).side side) =
      total value (e.side side) := by
    rw [stands.side_splice, split, total_append, total_append, total_append, same, add_assoc]
    rfl
  cases side with
  | left => exact congrArg (· - total value e.right) own
  | right => exact congrArg (total value e.left - ·) own

end Equation

end Variational
