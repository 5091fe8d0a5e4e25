import Variational.Proofs.StepKey.Grammar

/-!
# Reading step keys

A key is read as a whole tree exactly if it is derivable from the grammar, and then as the tree of
the expression that is derived. One direction follows the reader; the other one follows the
derivation, whose chains grow at the end where the reader has come to.
-/

namespace Variational.StepKey

variable {level : Level} {depth n : Nat} {c : Char} {cs rest text after : List Char} {t : Token}
  {ts us : List Token} {e e' : Expression} {tree tree' : Tree} {op : Operation}

/-! ## Whole trees -/

/-- The tree that an expression is read as. -/
def Expression.toTree : Expression → Tree
  | .number x => .number x
  | .name text => .name text
  | .neg operand => .neg operand.toTree
  | .apply op left right => .apply op left.toTree right.toTree

/-- An expression whose tree is known. -/
theorem Expression.of_toTree (whole : tree = e.toTree) : match tree with
    | .number x => e = .number x
    | .name text => e = .name text
    | .neg t => ∃ operand, e = .neg operand ∧ t = operand.toTree
    | .apply op t t' => ∃ left right, e = .apply op left right ∧ t = left.toTree ∧ t' = right.toTree
    | .broken _ | .stopped _ _ => False := by
  subst whole
  cases e with
  | number x | name text => rfl
  | neg operand => exact ⟨operand, rfl, rfl⟩
  | apply op left right => exact ⟨left, right, rfl, rfl, rfl⟩

theorem Expression.toTree_injective : Function.Injective toTree := by
  intro e
  induction e with
  | number x | name text => exact fun e' same => (of_toTree same).symm
  | neg operand ih =>
    intro e' same
    obtain ⟨operand', rfl, inner⟩ := of_toTree same
    rw [ih inner]
  | apply op left right ihLeft ihRight =>
    intro e' same
    obtain ⟨left', right', rfl, sameLeft, sameRight⟩ := of_toTree same
    rw [ihLeft sameLeft, ihRight sameRight]

/-! ## The reader, level by level -/

/-- The reader of a level. -/
def Level.read (depth : Nat) : Level → List Char → Tree × List Char
  | .sum => readSum (readFactor depth)
  | .product => readChain productOperation? (readFactor depth)
  | .factor => readFactor depth

/-- The reader of factors decides by the next character. -/
theorem readFactor_eq (next : skipBlank cs = c :: rest) : readFactor (depth + 1) cs =
    if c = '+' then readFactor depth rest
    else if c = '-' then (.neg (readFactor depth rest).1, (readFactor depth rest).2)
    else if c = '(' then
      match readSum (readFactor depth) rest with
      | (inner, after) =>
        match skipBlank after with
        | ')' :: closed => (inner, closed)
        | unclosed => (.stopped inner .unbalanced, unclosed)
    else if isNumberChar c then readNumber (c :: rest)
    else if isNameStart c then readName (c :: rest)
    else (.broken (.unexpectedCharacter c), c :: rest) := by
  rw [readFactor, next]
  split
  case h_4 _ after standing =>
    cases standing
    rfl
  all_goals simp_all

theorem readFactor_plus (next : skipBlank cs = '+' :: rest) :
    readFactor (depth + 1) cs = readFactor depth rest :=
  readFactor_eq next

theorem readFactor_minus (next : skipBlank cs = '-' :: rest) :
    readFactor (depth + 1) cs = (.neg (readFactor depth rest).1, (readFactor depth rest).2) :=
  readFactor_eq next

theorem readFactor_group (next : skipBlank cs = '(' :: rest)
    (inner : readSum (readFactor depth) rest = (tree, text))
    (closing : skipBlank text = ')' :: after) : readFactor (depth + 1) cs = (tree, after) := by
  rw [readFactor_eq next, inner]
  simp [closing]

theorem readFactor_number (next : skipBlank cs = c :: rest) (number : isNumberChar c = true) :
    readFactor (depth + 1) cs = readNumber (c :: rest) := by
  have other := not_symbol (.inl number)
  simp only [symbols, List.mem_cons, not_or] at other
  rw [readFactor_eq next, if_neg other.1, if_neg other.2.1, if_neg other.2.2.2.2.1, if_pos number]

theorem readFactor_name (next : skipBlank cs = c :: rest) (start : isNameStart c = true) :
    readFactor (depth + 1) cs = readName (c :: rest) := by
  have other := not_symbol (.inr start)
  simp only [symbols, List.mem_cons, not_or] at other
  rw [readFactor_eq next, if_neg other.1, if_neg other.2.1, if_neg other.2.2.2.2.1,
    isNumberChar_of_isNameStart start, if_neg Bool.false_ne_true, if_pos start]

theorem readChain_of_operand {operation? : Char → Option Operation}
    {operand : List Char → Tree × List Char} (run : operand cs = (tree, rest)) :
    readChain operation? operand cs = readTail operation? operand rest.length tree rest := by
  rw [readChain, run]

/-! ## What is read is derived -/

/-- Reading from one text to another one consumes tokens that the expression is derived from. -/
def Consumes (level : Level) (cs rest : List Char) (e : Expression) : Prop :=
  ∃ ts, Derives level ts e ∧ ∀ us, Spelled rest us → Spelled cs (ts ++ us)

theorem Consumes.of_skipBlank (consumes : Consumes level (skipBlank cs) rest e) :
    Consumes level cs rest e := by
  obtain ⟨ts, derives, spelled⟩ := consumes
  exact ⟨ts, derives, fun us rest => spelled_skipBlank.1 (spelled us rest)⟩

/-- A symbol in front of a spelled text. -/
theorem Spelled.symbol (next : skipBlank cs = c :: rest) (symbol : c ∈ symbols)
    (spelled : Spelled rest ts) : Spelled cs (.symbol c :: ts) := by
  refine .of_begins ?_ spelled
  rw [next]
  exact .symbol symbol

/-- If the operands are derived, then an operand and the tail of its chain are. The tree so far
is whole if the resulting one is. -/
theorem readTail_sound
    (sound : ∀ {cs rest e}, level.operand.read depth cs = (e.toTree, rest) →
      Consumes level.operand cs rest e)
    (read : readTail level.operation? (level.operand.read depth) n tree cs = (e.toTree, rest)) :
    ∃ e₀, tree = e₀.toTree ∧ ∀ ts, Derives level ts e₀ →
      ∃ us, Derives level (ts ++ us) e ∧ ∀ vs, Spelled rest vs → Spelled cs (us ++ vs) := by
  induction n generalizing tree cs with
  | zero =>
    obtain ⟨rfl, rfl⟩ := Prod.mk.inj read
    exact ⟨e, rfl, fun ts derives => ⟨[], by rwa [List.append_nil], fun vs spelled => spelled⟩⟩
  | succ n ih =>
    -- the chain ends where the text ends or no operation follows
    have ends (last : (tree, skipBlank cs) = (e.toTree, rest)) : ∃ e₀, tree = e₀.toTree ∧
        ∀ ts, Derives level ts e₀ → ∃ us, Derives level (ts ++ us) e ∧
          ∀ vs, Spelled rest vs → Spelled cs (us ++ vs) := by
      obtain ⟨rfl, rfl⟩ := Prod.mk.inj last
      exact ⟨e, rfl, fun ts derives =>
        ⟨[], by rwa [List.append_nil], fun vs spelled => spelled_skipBlank.1 spelled⟩⟩
    rw [readTail] at read
    cases next : skipBlank cs with
    | nil =>
      rw [next] at read ends
      exact ends read
    | cons c after =>
      rw [next] at read
      cases joins : level.operation? c with
      | none =>
        simp only [joins] at read
        rw [next] at ends
        exact ends read
      | some op =>
        simp only [joins] at read
        obtain ⟨e₁, whole, grown⟩ := ih read
        obtain ⟨left, right, rfl, wholeLeft, wholeRight⟩ := Expression.of_toTree whole
        obtain ⟨ts', derives', spelled'⟩ := sound (Prod.ext wholeRight rfl)
        refine ⟨left, wholeLeft, fun ts derives => ?_⟩
        obtain ⟨us, derives, spelled⟩ := grown _ (.join derives joins derives')
        refine ⟨.symbol c :: ts' ++ us, by simpa using derives, fun vs spelledRest => ?_⟩
        have behind : Spelled after (ts' ++ (us ++ vs)) := spelled' _ (spelled vs spelledRest)
        simpa using Spelled.symbol next (Level.mem_symbols joins) behind

theorem readChain_sound
    (sound : ∀ {cs rest e}, level.operand.read depth cs = (e.toTree, rest) →
      Consumes level.operand cs rest e)
    (read : readChain level.operation? (level.operand.read depth) cs = (e.toTree, rest)) :
    Consumes level cs rest e := by
  obtain ⟨e₀, whole, grown⟩ := readTail_sound sound read
  obtain ⟨ts, derives, spelled⟩ := sound (Prod.ext whole rfl)
  obtain ⟨us, derives', spelled'⟩ := grown ts (.operand derives)
  refine ⟨ts ++ us, derives', fun vs rest => ?_⟩
  rw [List.append_assoc]
  exact spelled _ (spelled' vs rest)

theorem readNumber_sound (number : isNumberChar c = true)
    (read : readNumber (c :: rest) = (e.toTree, text)) : Consumes .factor (c :: rest) text e := by
  obtain ⟨whole, rfl⟩ := Prod.mk.inj read
  cases value : Decimal.read ((c :: rest).takeWhile isNumberChar) with
  | none =>
    rw [value] at whole
    exact (Expression.of_toTree whole).elim
  | some x =>
    rw [value] at whole
    obtain rfl : e = .number x := Expression.of_toTree whole
    refine ⟨_, .number value, fun us spelled => ?_⟩
    have begins : Begins (.number ((c :: rest).takeWhile isNumberChar)) (c :: rest)
        ((c :: rest).dropWhile isNumberChar) := by
      have nonempty : (c :: rest).takeWhile isNumberChar ≠ [] := by simp [number]
      have := Begins.number nonempty (fun _ => List.mem_takeWhile_imp)
        (head?_dropWhile isNumberChar (c :: rest))
      rwa [List.takeWhile_append_dropWhile] at this
    exact spelled.behind begins

theorem readName_sound (start : isNameStart c = true)
    (read : readName (c :: rest) = (e.toTree, text)) : Consumes .factor (c :: rest) text e := by
  have run := isNameChar_of_isNameStart start
  obtain ⟨whole, rfl⟩ := Prod.mk.inj read
  obtain rfl : e = .name _ := Expression.of_toTree whole
  refine ⟨_, .name, fun us spelled => ?_⟩
  have begins : Begins (.name ((c :: rest).takeWhile isNameChar)) (c :: rest)
      ((c :: rest).dropWhile isNameChar) := by
    have later : ∀ d ∈ rest.takeWhile isNameChar, isNameChar d = true :=
      fun _ => List.mem_takeWhile_imp
    have := Begins.name start later (head?_dropWhile isNameChar rest)
    rw [List.cons_append, List.takeWhile_append_dropWhile] at this
    simpa [run] using this
  exact spelled.behind begins

/-- If factors are derived, then sums are. -/
theorem sum_sound_of_factor
    (sound : ∀ {cs rest e}, Level.factor.read depth cs = (e.toTree, rest) →
      Consumes .factor cs rest e)
    (read : Level.sum.read depth cs = (e.toTree, rest)) : Consumes .sum cs rest e := by
  have products {cs rest : List Char} {e : Expression}
      (read : Level.product.read depth cs = (e.toTree, rest)) : Consumes .product cs rest e :=
    readChain_sound sound read
  exact readChain_sound products read

theorem readFactor_sound (read : readFactor depth cs = (e.toTree, rest)) :
    Consumes .factor cs rest e := by
  induction depth generalizing cs e rest with
  | zero => exact (Expression.of_toTree (Prod.mk.inj read).1).elim
  | succ depth ih =>
    rw [readFactor] at read
    split at read
    case h_1 => exact (Expression.of_toTree (Prod.mk.inj read).1).elim
    case h_2 after next =>
      obtain ⟨ts, derives, spelled⟩ := ih read
      exact ⟨_, .plus derives, fun us behind =>
        .symbol next (by simp [symbols]) (spelled us behind)⟩
    case h_3 after next =>
      obtain ⟨whole, rfl⟩ := Prod.mk.inj read
      obtain ⟨e', rfl, whole'⟩ := Expression.of_toTree whole
      obtain ⟨ts, derives, spelled⟩ := ih (Prod.ext whole' rfl)
      exact ⟨_, .minus derives, fun us behind =>
        .symbol next (by simp [symbols]) (spelled us behind)⟩
    case h_4 after next =>
      dsimp only at read
      split at read
      case h_1 closed closing =>
        obtain ⟨whole, rfl⟩ := Prod.mk.inj read
        obtain ⟨ts, derives, spelled⟩ := sum_sound_of_factor ih (Prod.ext whole rfl)
        refine ⟨_, .group derives, fun us behind => ?_⟩
        have closes : Spelled _ (.symbol ')' :: us) :=
          .symbol closing (by simp [symbols]) behind
        simpa using Spelled.symbol next (by simp [symbols]) (spelled _ closes)
      case h_2 => exact (Expression.of_toTree (Prod.mk.inj read).1).elim
    case h_5 c after _ _ _ next =>
      refine .of_skipBlank ?_
      rw [next]
      split at read
      case isTrue number => exact readNumber_sound number read
      case isFalse =>
        split at read
        case isTrue start => exact readName_sound start read
        case isFalse => exact (Expression.of_toTree (Prod.mk.inj read).1).elim

/-! ## What is derived is read -/

/-- The next token is no operation that would be read on this level or on a tighter one. -/
def Level.Stops (level : Level) (us : List Token) : Prop :=
  ∀ c, us.head? = some (.symbol c) →
    level.operation? c = none ∧ level.operand.operation? c = none

theorem Level.Stops.operand (stops : level.Stops us) : level.operand.Stops us := by
  intro c next
  cases level with
  | sum => exact ⟨(stops c next).2, rfl⟩
  | product | factor => exact ⟨rfl, rfl⟩

/-- The reader of a level has come behind an expression and may go on there with the chain. -/
def Reaches (depth : Nat) : Level → List Char → Expression → List Char → Prop
  | .factor, cs, e, rest => readFactor depth cs = (e.toTree, rest)
  | level, cs, e, rest => ∃ n, rest.length ≤ n ∧
      level.read depth cs = readTail level.operation? (level.operand.read depth) n e.toTree rest

/-- No operation follows, so the chain ends. -/
theorem readTail_ends {operand : List Char → Tree × List Char} (spelled : Spelled rest us)
    (stops : level.Stops us) (enough : rest.length ≤ n) :
    readTail level.operation? operand n tree rest = (tree, skipBlank rest) := by
  cases n with
  | zero =>
    obtain rfl := List.length_eq_zero_iff.1 (Nat.le_zero.1 enough)
    rfl
  | succ n =>
    rw [readTail]
    cases us with
    | nil => rw [spelled.skipBlank_eq_nil]
    | cons t us =>
      obtain ⟨after, begins, -, -⟩ := spelled.begins
      obtain ⟨c, tail, next, kind⟩ := begins.head
      have none : level.operation? c = none := by
        rcases kind with ⟨rfl, -⟩ | run
        · exact (stops c rfl).1
        · by_contra some
          obtain ⟨op, joins⟩ := Option.ne_none_iff_exists'.1 some
          exact not_symbol run (Level.mem_symbols joins)
      simp only [next, none]

/-- Where no operation follows an expression, the reader of its level stops behind it. -/
theorem Reaches.read (reaches : Reaches depth level cs e rest) (spelled : Spelled rest us)
    (stops : level.Stops us) : ∃ rest', level.read depth cs = (e.toTree, rest') ∧
      Spelled rest' us ∧ rest'.length ≤ rest.length := by
  cases level with
  | factor => exact ⟨rest, reaches, spelled, le_rfl⟩
  | sum | product =>
    obtain ⟨n, enough, run⟩ := reaches
    exact ⟨skipBlank rest, run.trans (readTail_ends spelled stops enough),
      spelled_skipBlank.2 spelled, length_skipBlank rest⟩

/-- A reader has come to a symbol. -/
theorem Spelled.at_symbol (spelled : Spelled cs (.symbol c :: ts)) :
    ∃ rest, skipBlank cs = c :: rest ∧ Spelled rest ts ∧ rest.length < cs.length := by
  obtain ⟨rest, begins, spelled, shorter⟩ := spelled.begins
  generalize skipBlank cs = text at begins ⊢
  cases begins with
  | symbol => exact ⟨rest, rfl, spelled, shorter⟩

/-- One more operation and operand of a chain are read. -/
theorem Reaches.join {middle after : List Char} (reaches : Reaches depth level cs e rest)
    (joins : level.operation? c = some op) (next : skipBlank rest = c :: middle)
    (right : level.operand.read depth middle = (e'.toTree, after))
    (shorter : after.length < rest.length) :
    Reaches depth level cs (.apply op e e') after := by
  cases level with
  | factor => cases joins
  | sum | product =>
    obtain ⟨_ | n, enough, run⟩ := reaches
    · omega
    · refine ⟨n, by omega, run.trans ?_⟩
      rw [readTail, next]
      simp only [joins, right]
      rfl

/-- A derived expression is read where its tokens are spelled. The induction is on the derivation;
the operand at the end of a chain is read after the chain in front of it. -/
theorem Derives.reaches (derives : Derives level ts e) (deep : cs.length ≤ depth)
    (spelled : Spelled cs (ts ++ us)) (stops : level.operand.Stops us) :
    ∃ rest, Reaches depth level cs e rest ∧ Spelled rest us ∧ rest.length < cs.length := by
  induction derives generalizing depth cs us with
  | @operand level ts e derives ih =>
    obtain ⟨rest, reaches, behind, shorter⟩ := ih deep spelled stops.operand
    cases level with
    | factor => exact ⟨rest, reaches, behind, shorter⟩
    | sum | product =>
      obtain ⟨rest', run, behind', closer⟩ := reaches.read behind stops
      exact ⟨rest', ⟨rest'.length, le_rfl, readChain_of_operand run⟩, behind', by omega⟩
  | @join level c op ts vs e e' left joins right ihLeft ihRight =>
    rw [List.append_assoc, List.cons_append] at spelled
    have turns : level.operand.Stops (.symbol c :: (vs ++ us)) := by
      rintro c' next
      obtain rfl : c = c' := by simpa using next
      exact ⟨Level.operand_operation? joins, by cases level <;> rfl⟩
    obtain ⟨rest, reaches, behind, shorter⟩ := ihLeft deep spelled turns
    obtain ⟨middle, next, behind, closer⟩ := behind.at_symbol
    have short : middle.length ≤ depth := by omega
    obtain ⟨after, reaches', behind, closer'⟩ := ihRight short behind stops.operand
    obtain ⟨after', run, behind, closest⟩ := reaches'.read behind stops
    exact ⟨after', reaches.join joins next run (by omega), behind, by omega⟩
  | @plus ts e operand ih =>
    obtain ⟨rest, next, behind, shorter⟩ := spelled.at_symbol
    obtain ⟨depth, rfl⟩ := Nat.exists_eq_add_one.2 (by omega : 0 < depth)
    have short : rest.length ≤ depth := by omega
    obtain ⟨after, run, behind, closer⟩ := ih short behind stops
    exact ⟨after, (readFactor_plus next).trans run, behind, by omega⟩
  | @minus ts e operand ih =>
    obtain ⟨rest, next, behind, shorter⟩ := spelled.at_symbol
    obtain ⟨depth, rfl⟩ := Nat.exists_eq_add_one.2 (by omega : 0 < depth)
    have short : rest.length ≤ depth := by omega
    obtain ⟨after, run, behind, closer⟩ := ih short behind stops
    refine ⟨after, (readFactor_minus next).trans ?_, behind, by omega⟩
    rw [show readFactor depth rest = _ from run, Expression.toTree]
  | @number text x denotes =>
    obtain ⟨rest, begins, behind, shorter⟩ := spelled.begins
    obtain ⟨depth, rfl⟩ := Nat.exists_eq_add_one.2 (by omega : 0 < depth)
    generalize next : skipBlank cs = cs' at begins
    cases begins with
    | number nonempty run maximal =>
      obtain ⟨c, text, rfl⟩ := List.exists_cons_of_ne_nil nonempty
      obtain ⟨taken, dropped⟩ := takeWhile_run run maximal
      refine ⟨rest, (readFactor_number next (run c List.mem_cons_self)).trans ?_, behind, shorter⟩
      change readNumber (c :: text ++ rest) = _
      rw [readNumber, taken, dropped, denotes, Expression.toTree]
  | @name text =>
    obtain ⟨rest, begins, behind, shorter⟩ := spelled.begins
    obtain ⟨depth, rfl⟩ := Nat.exists_eq_add_one.2 (by omega : 0 < depth)
    generalize next : skipBlank cs = cs' at begins
    cases begins with
    | @name c text _ start run maximal =>
      have whole : ∀ d ∈ c :: text, isNameChar d = true :=
        List.forall_mem_cons.2 ⟨isNameChar_of_isNameStart start, run⟩
      obtain ⟨taken, dropped⟩ := takeWhile_run whole maximal
      refine ⟨rest, (readFactor_name next start).trans ?_, behind, shorter⟩
      change readName (c :: text ++ rest) = _
      rw [readName, taken, dropped, Expression.toTree]
  | @group ts e inner ih =>
    rw [List.cons_append, List.cons_append, List.append_assoc] at spelled
    obtain ⟨rest, next, behind, shorter⟩ := spelled.at_symbol
    obtain ⟨depth, rfl⟩ := Nat.exists_eq_add_one.2 (by omega : 0 < depth)
    have closes : Level.sum.Stops (.symbol ')' :: us) := by
      rintro c' next
      obtain rfl : ')' = c' := by simpa using next
      exact ⟨rfl, rfl⟩
    have short : rest.length ≤ depth := by omega
    obtain ⟨middle, reaches, behind, closer⟩ := ih short behind closes.operand
    obtain ⟨middle', run, behind, closer'⟩ := reaches.read behind closes
    obtain ⟨after, closing, behind, closest⟩ := behind.at_symbol
    exact ⟨after, readFactor_group next run closing, behind, by omega⟩

/-! ## Whole keys -/

/-- A key is read as a whole expression exactly if it is derivable as this expression. -/
theorem read_iff {key : List Char} : read key = e.toTree ↔ Derivable key e := by
  constructor
  · intro whole
    rw [read] at whole
    cases left : skipBlank (readSum (readFactor (key.length + 1)) key).2 with
    | cons c rest =>
      simp only [left] at whole
      exact (Expression.of_toTree whole).elim
    | nil =>
      simp only [left] at whole
      obtain ⟨ts, derives, spelled⟩ := sum_sound_of_factor readFactor_sound (Prod.ext whole rfl)
      have rest : Spelled (readSum (readFactor (key.length + 1)) key).2 [] := by
        rw [← spelled_skipBlank, left]
        exact .done (by simp [Text.AllBlank])
      exact ⟨ts, by simpa using spelled [] rest, derives⟩
  · rintro ⟨ts, spelled, derives⟩
    have stops : Level.sum.Stops [] := by rintro c ⟨⟩
    obtain ⟨rest, reaches, behind, -⟩ :=
      derives.reaches (Nat.le_succ key.length) (by simpa using spelled) stops.operand
    obtain ⟨rest', run, behind, -⟩ := reaches.read behind stops
    rw [read, show readSum (readFactor (key.length + 1)) key = _ from run]
    simp only [behind.skipBlank_eq_nil]

/-- A key is derivable as one expression at most. -/
theorem Derivable.unique {key : List Char} (derivable : Derivable key e)
    (derivable' : Derivable key e') : e = e' :=
  Expression.toTree_injective ((read_iff.2 derivable).symm.trans (read_iff.2 derivable'))

end Variational.StepKey
