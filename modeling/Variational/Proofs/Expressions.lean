import Variational.Pde.Expression
import Variational.Proofs.Session.Execution
import Variational.Proofs.Text.Numerals

/-!
# Reading equations

An expression without its blank characters spells an equation in one way only: a side is `0` or
names with runs of signs in front. The reader accepts exactly the expressions that spell an
equation, it does not see blank characters, and it takes a written equation back.
-/

namespace Variational.Pde.Expression

open Text (isBlank pieces trim)

variable {names : List (String × FormId)} {expression other : String} {text name run : List Char}
  {sign : Sign} {f : FormId} {terms : List (Signed FormId)}

/-- A text without its blank characters. -/
def compact (text : List Char) : List Char :=
  text.filter fun c => !isBlank c

/-- A text that an expression can name a form by. -/
structure IsName (text : List Char) : Prop where
  nonempty : text ≠ []
  notZero : text ≠ ['0']
  solid : ∀ c ∈ text, isBlank c = false
  unsigned : '+' ∉ text ∧ '-' ∉ text
  undivided : '=' ∉ text

/-- A form is the first one with a name. -/
def Names (names : List (String × FormId)) (name : List Char) (f : FormId) : Prop :=
  ∃ before after, names = before ++ (String.ofList name, f) :: after ∧
    ∀ entry ∈ before, entry.1 ≠ String.ofList name

/-- A sequence of plus and minus signs. -/
def SignRun (text : List Char) : Prop :=
  ∀ c ∈ text, c = '+' ∨ c = '-'

/-- The sign of a run: minus if it holds an odd number of minus signs. -/
def runSign (text : List Char) : Sign :=
  if text.count '-' % 2 = 1 then .minus else .plus

/-- The terms after the first one, each with signs in front. -/
inductive Continues (names : List (String × FormId)) : List Char → List (Signed FormId) → Prop
  | done : Continues names [] []
  | term {run name rest : List Char} {f : FormId} {terms : List (Signed FormId)}
      (signs : SignRun run) (signed : run ≠ []) (denotes : Names names name f)
      (continues : Continues names rest terms) :
      Continues names (run ++ name ++ rest) (⟨runSign run, f⟩ :: terms)

/-- The terms that a text without blank characters spells. -/
inductive SpellsSide (names : List (String × FormId)) : List Char → List (Signed FormId) → Prop
  | zero : SpellsSide names ['0'] []
  | terms {run name rest : List Char} {f : FormId} {terms : List (Signed FormId)}
      (signs : SignRun run) (denotes : Names names name f)
      (continues : Continues names rest terms) :
      SpellsSide names (run ++ name ++ rest) (⟨runSign run, f⟩ :: terms)

/-- The equation that a text spells, apart from its blank characters. -/
def Spells (names : List (String × FormId)) (text : List Char) (e : Equation FormId) : Prop :=
  ∃ left right, compact text = left ++ '=' :: right ∧ '=' ∉ left ∧ '=' ∉ right ∧
    SpellsSide names left e.left ∧ SpellsSide names right e.right

/-- The results of reading two expressions differ at most in the expression that a rejection
quotes. -/
inductive Alike (expression other : String) {α : Type} : Outcome α → Outcome α → Prop
  | ok (x : α) : Alike expression other (.ok x) (.ok x)
  | equalsCount :
      Alike expression other (reject (.malformed (.equalsCount expression)))
        (reject (.malformed (.equalsCount other)))
  | unknownName (name : String) :
      Alike expression other (reject (.malformed (.unknownName expression name)))
        (reject (.malformed (.unknownName other name)))
  | missingName :
      Alike expression other (reject (.malformed (.missingName expression)))
        (reject (.malformed (.missingName other)))

/-! ## Writing -/

/-- The character of a sign. -/
def signChar : Sign → Char
  | .plus => '+'
  | .minus => '-'

/-- A term after the first one, such as `" - x"`. -/
def writeNext (t : Signed String) : List Char :=
  [' ', signChar t.sign, ' '] ++ t.value.toList

/-- A side, such as `"-x + y"`, or `"0"` if it has no terms. -/
def writeSide : List (Signed String) → List Char
  | [] => ['0']
  | first :: rest =>
    (if first.sign = .minus then ['-'] else []) ++ first.value.toList ++ rest.flatMap writeNext

/-- An equation of named terms, such as `"-x + y = 0"`. -/
def write (e : Equation String) : String :=
  String.ofList (writeSide e.left ++ [' ', '=', ' '] ++ writeSide e.right)

/-- The terms by name. -/
def named (name : FormId → String) (terms : List (Signed FormId)) : List (Signed String) :=
  terms.map fun t => ⟨t.sign, name t.value⟩

/-! ## Blank characters -/

theorem compact_append (before after : List Char) :
    compact (before ++ after) = compact before ++ compact after :=
  List.filter_append before after

theorem compact_of_solid (solid : ∀ c ∈ text, isBlank c = false) : compact text = text :=
  List.filter_eq_self.2 fun c member => by simp [solid c member]

theorem compact_of_allBlank (blank : Text.AllBlank text) : compact text = [] :=
  List.filter_eq_nil_iff.2 fun c member => by simp [blank c member]

theorem pieces_compact {separator : Char} (solid : isBlank separator = false) :
    pieces separator (compact text) = (pieces separator text).map compact := by
  induction text with
  | nil => rfl
  | cons c rest ih =>
    rw [pieces]
    split
    case isTrue same =>
      subst same
      rw [compact, List.filter_cons_of_pos (by simp [solid]), pieces, if_pos rfl, List.map_cons,
        ← ih]
      rfl
    case isFalse different =>
      obtain ⟨piece, others, parts⟩ :=
        List.exists_cons_of_ne_nil (Text.pieces_ne_nil separator rest)
      rw [parts, List.map_cons] at ih
      rw [parts]
      cases blank : isBlank c with
      | true =>
        rw [compact, List.filter_cons_of_neg (by simp [blank])]
        simpa [compact, blank] using ih
      | false =>
        rw [compact, List.filter_cons_of_pos (by simp [blank]), pieces, if_neg different,
          ← compact, ih]
        simp [compact, blank]

/-- A side is zero if and only if it is once its blank characters are removed. -/
theorem trim_eq_zero_iff : trim text = ['0'] ↔ compact text = ['0'] := by
  constructor
  · intro zero
    obtain ⟨before, after, front, back, whole⟩ := Text.exists_padding text
    rw [whole, zero, compact_append, compact_append, compact_of_allBlank front,
      compact_of_allBlank back]
    rfl
  · intro zero
    obtain ⟨before, after, rfl, front, -, back⟩ := List.filter_eq_cons_iff.1 zero
    have blankBefore : Text.AllBlank before := fun c member => by simpa using front c member
    have blankAfter : Text.AllBlank after := fun c member => by
      simpa using List.filter_eq_nil_iff.1 back c member
    have padded : trim (['0'] ++ after) = trim ['0'] := Text.trim_append_right blankAfter
    rw [Text.trim_append_left blankBefore]
    exact padded

theorem readSide_eq : readSide expression names text =
    if compact text = ['0'] then .ok []
    else readTerms expression names .plus [] (compact text) := by
  simp only [readSide, trim_eq_zero_iff]
  rfl

/-! ## Signs -/

theorem sign?_eq_some_iff {c : Char} {next : Sign} :
    sign? c = some next ↔ c = signChar next := by
  constructor
  · intro read
    unfold sign? at read
    split at read <;> cases read <;> rfl
  · rintro rfl
    cases next <;> rfl

theorem IsName.sign?_eq_none (named : IsName text) : ∀ c ∈ text, sign? c = none := by
  intro c member
  cases sort : sign? c with
  | none => rfl
  | some next =>
    obtain rfl := sign?_eq_some_iff.1 sort
    cases next with
    | plus => exact absurd member named.unsigned.1
    | minus => exact absurd member named.unsigned.2

theorem runSign_cons (next : Sign) (run : List Char) :
    runSign (signChar next :: run) = next.compose (runSign run) := by
  cases next with
  | plus => rfl
  | minus =>
    simp only [runSign, signChar, List.count_cons_self, Sign.minus_compose]
    rcases Nat.mod_two_eq_zero_or_one (run.count '-') with even | odd
    · rw [if_pos (by omega), if_neg (by omega)]
      rfl
    · rw [if_neg (by omega), if_pos odd]
      rfl

theorem SignRun.cons_iff {c : Char} :
    SignRun (c :: run) ↔ (∃ next, c = signChar next) ∧ SignRun run := by
  have single : (c = '+' ∨ c = '-') ↔ ∃ next, c = signChar next := by
    constructor
    · rintro (rfl | rfl)
      · exact ⟨.plus, rfl⟩
      · exact ⟨.minus, rfl⟩
    · rintro ⟨_ | _, rfl⟩ <;> simp [signChar]
  rw [SignRun, List.forall_mem_cons, single, ← SignRun]

/-! ## Names -/

theorem lookup_eq_ok_iff : lookup expression names name = .ok f ↔ Names names name f := by
  have same (entry : String × FormId) : entry.1.toList = name ↔ entry.1 = String.ofList name := by
    rw [← String.toList_inj, String.toList_ofList]
  have found : lookup expression names name = .ok f ↔
      ∃ entry, names.find? (·.1.toList = name) = some entry ∧ entry.2 = f := by
    unfold lookup
    cases names.find? (·.1.toList = name) with
    | none => simp [reject]
    | some entry => simp
  rw [found]
  simp only [same, List.find?_eq_some_iff_append, decide_eq_true_eq, Bool.not_eq_eq_eq_not,
    Bool.not_true, decide_eq_false_iff_not]
  constructor
  · rintro ⟨⟨_, _⟩, ⟨rfl, before, after, whole, others⟩, rfl⟩
    exact ⟨before, after, whole, others⟩
  · rintro ⟨before, after, whole, others⟩
    exact ⟨(String.ofList name, f), ⟨rfl, before, after, whole, others⟩, rfl⟩

theorem Names.isName (valid : ∀ entry ∈ names, IsName entry.1.toList)
    (denotes : Names names name f) : IsName name := by
  obtain ⟨before, after, rfl, -⟩ := denotes
  have own := valid (String.ofList name, f) (by simp)
  rwa [String.toList_ofList] at own

/-! ## Terms -/

theorem readTerms_run (signs : SignRun run) :
    readTerms expression names sign [] (run ++ text) =
      readTerms expression names (sign.compose (runSign run)) [] text := by
  induction run generalizing sign with
  | nil => rw [List.nil_append, runSign, List.count_nil, if_neg (by decide), Sign.compose_plus]
  | cons c run ih =>
    obtain ⟨⟨next, rfl⟩, others⟩ := SignRun.cons_iff.1 signs
    rw [List.cons_append, readTerms, sign?_eq_some_iff.2 rfl, runSign_cons, ← Sign.compose_assoc]
    exact ih others

theorem readTerms_name {pending : List Char} (unsigned : ∀ c ∈ name, sign? c = none) :
    readTerms expression names sign pending (name ++ text) =
      readTerms expression names sign (name.reverse ++ pending) text := by
  induction name generalizing pending with
  | nil => rfl
  | cons c name ih =>
    rw [List.forall_mem_cons] at unsigned
    rw [List.cons_append, readTerms, unsigned.1, List.reverse_cons, List.append_assoc]
    exact ih unsigned.2

/-- A pending name ends where a sign follows. -/
theorem readTerms_sign {next : Sign} {pending : List Char} (nonempty : pending ≠ [])
    (found : lookup expression names pending.reverse = .ok f) :
    readTerms expression names sign pending (signChar next :: text) =
      (do return ⟨sign, f⟩ :: (← readTerms expression names next [] text)) := by
  rw [readTerms, sign?_eq_some_iff.2 rfl]
  simp only [if_neg nonempty, found]
  rfl

/-- With a name pending, the rest is read as the terms that it spells. -/
theorem readTerms_of_continues (valid : ∀ entry ∈ names, IsName entry.1.toList)
    (denotes : Names names name f) (continues : Continues names text terms) :
    readTerms expression names sign name.reverse text = .ok (⟨sign, f⟩ :: terms) := by
  have pending : name.reverse ≠ [] := by simpa using (denotes.isName valid).nonempty
  have found : lookup expression names name.reverse.reverse = .ok f := by
    rw [List.reverse_reverse]
    exact lookup_eq_ok_iff.2 denotes
  induction continues generalizing sign name f with
  | done =>
    rw [readTerms, found]
    · rfl
    · exact pending
  | @term run next rest g terms signs signed nextDenotes continues ih =>
    obtain ⟨c, run, rfl⟩ := List.exists_cons_of_ne_nil signed
    obtain ⟨⟨leading, rfl⟩, others⟩ := SignRun.cons_iff.1 signs
    have nextName := nextDenotes.isName valid
    rw [List.cons_append, List.cons_append, readTerms_sign pending found, List.append_assoc,
      readTerms_run others, readTerms_name nextName.sign?_eq_none, List.append_nil, runSign_cons,
      ih nextDenotes (by simpa using nextName.nonempty)
        (by rw [List.reverse_reverse]; exact lookup_eq_ok_iff.2 nextDenotes)]
    rfl

/-- Terms that are read are spelled: the text is signs, unless a name is pending already, the
rest of the name, and further terms. -/
theorem continues_of_readTerms {pending : List Char}
    (read : readTerms expression names sign pending text = .ok terms) :
    ∃ run name rest f others, text = run ++ name ++ rest ∧ SignRun run ∧
      (pending ≠ [] → run = []) ∧ Names names (pending.reverse ++ name) f ∧
      Continues names rest others ∧ terms = ⟨sign.compose (runSign run), f⟩ :: others := by
  induction text generalizing sign pending terms with
  | nil =>
    cases pending with
    | nil => cases read
    | cons p pending =>
      rw [readTerms, Outcome.bind_eq_ok] at read
      · obtain ⟨f, found, made⟩ := read
        cases made
        refine ⟨[], [], [], f, [], rfl, by simp [SignRun], fun _ => rfl, ?_, .done, ?_⟩
        · rw [List.append_nil]
          exact lookup_eq_ok_iff.1 found
        · simp [runSign]
      · simp
  | cons c text ih =>
    rw [readTerms] at read
    cases sort : sign? c with
    | none =>
      rw [sort] at read
      obtain ⟨run, name, rest, f, others, rfl, signs, first, denotes, continues, rfl⟩ := ih read
      obtain rfl := first (by simp)
      refine ⟨[], c :: name, rest, f, others, by simp, signs, fun _ => rfl, ?_, continues, rfl⟩
      simpa using denotes
    | some next =>
      obtain rfl := sign?_eq_some_iff.1 sort
      rw [sort] at read
      simp only at read
      split at read
      case isTrue empty =>
        subst empty
        obtain ⟨run, name, rest, f, others, rfl, signs, -, denotes, continues, rfl⟩ := ih read
        refine ⟨signChar next :: run, name, rest, f, others, rfl,
          SignRun.cons_iff.2 ⟨⟨next, rfl⟩, signs⟩, by simp, denotes, continues, ?_⟩
        rw [runSign_cons, Sign.compose_assoc]
      case isFalse nonempty =>
        obtain ⟨g, found, made⟩ := Outcome.bind_eq_ok.1 read
        obtain ⟨later, further, made⟩ := Outcome.bind_eq_ok.1 made
        cases made
        obtain ⟨run, name, rest, f, others, rfl, signs, -, denotes, continues, rfl⟩ := ih further
        refine ⟨[], [], _, g, _, rfl, by simp [SignRun], fun _ => rfl, ?_,
          .term (SignRun.cons_iff.2 ⟨⟨next, rfl⟩, signs⟩) (by simp) denotes continues, ?_⟩
        · rw [List.append_nil]
          exact lookup_eq_ok_iff.1 found
        · rw [runSign_cons]
          simp [runSign]

/-! ## Sides -/

/-- A text with a name in it is not a lone zero. -/
theorem ne_zero_of_terms {rest : List Char} (signs : SignRun run) (isName : IsName name) :
    run ++ name ++ rest ≠ ['0'] := by
  intro zero
  cases run with
  | nil =>
    obtain ⟨c, others, rfl⟩ := List.exists_cons_of_ne_nil isName.nonempty
    simp only [List.nil_append, List.cons_append, List.cons.injEq, List.append_eq_nil_iff] at zero
    obtain ⟨rfl, rfl, -⟩ := zero
    exact isName.notZero rfl
  | cons c run =>
    rw [List.cons_append, List.cons_append, List.cons.injEq] at zero
    obtain ⟨⟨next, rfl⟩, -⟩ := SignRun.cons_iff.1 signs
    exact absurd zero.1 (by cases next <;> decide)

/-- A side is read exactly as the terms that it spells. -/
theorem readSide_eq_ok_iff (valid : ∀ entry ∈ names, IsName entry.1.toList) :
    readSide expression names text = .ok terms ↔ SpellsSide names (compact text) terms := by
  rw [readSide_eq]
  constructor
  · intro read
    split at read
    case isTrue zero =>
      cases read
      rw [zero]
      exact .zero
    case isFalse =>
      obtain ⟨run, name, rest, f, others, whole, signs, -, denotes, continues, rfl⟩ :=
        continues_of_readTerms read
      rw [whole, Sign.plus_compose]
      exact .terms signs denotes continues
  · intro spells
    generalize compact text = side at spells
    cases spells with
    | zero => rfl
    | @terms run name rest f terms signs denotes continues =>
      have named := denotes.isName valid
      rw [if_neg (ne_zero_of_terms signs named), List.append_assoc, readTerms_run signs,
        Sign.plus_compose, readTerms_name named.sign?_eq_none, List.append_nil]
      exact readTerms_of_continues valid denotes continues

/-! ## Equations -/

theorem map_compact_eq_pair_iff {parts : List (List Char)} {left right : List Char} :
    parts.map compact = [left, right] ↔
      ∃ textLeft textRight, parts = [textLeft, textRight] ∧ compact textLeft = left ∧
        compact textRight = right := by
  constructor
  · intro mapped
    obtain ⟨textLeft, others, rfl, rfl, second⟩ := List.map_eq_cons_iff.1 mapped
    obtain ⟨textRight, others, rfl, rfl, last⟩ := List.map_eq_cons_iff.1 second
    obtain rfl := List.map_eq_nil_iff.1 last
    exact ⟨textLeft, textRight, rfl, rfl, rfl⟩
  · rintro ⟨textLeft, textRight, rfl, rfl, rfl⟩
    rfl

/-- An equation is read exactly if it is spelled. -/
theorem read_eq_ok_iff (valid : ∀ entry ∈ names, IsName entry.1.toList) {e : Equation FormId} :
    read names expression = .ok e ↔ Spells names expression.toList e := by
  have divided {left right : List Char} :
      (pieces '=' expression.toList).map compact = [left, right] ↔
        compact expression.toList = left ++ '=' :: right ∧ '=' ∉ left ∧ '=' ∉ right := by
    rw [← pieces_compact (by decide), Text.pieces_eq_pair_iff]
  constructor
  · intro run
    unfold read at run
    split at run
    case h_1 left right parts =>
      obtain ⟨terms, readLeft, run⟩ := Outcome.bind_eq_ok.1 run
      obtain ⟨others, readRight, made⟩ := Outcome.bind_eq_ok.1 run
      cases made
      obtain ⟨whole, absentLeft, absentRight⟩ := divided.1 (congrArg (List.map compact) parts)
      exact ⟨compact left, compact right, whole, absentLeft, absentRight,
        (readSide_eq_ok_iff valid).1 readLeft, (readSide_eq_ok_iff valid).1 readRight⟩
    case h_2 => cases run
  · rintro ⟨left, right, whole, absentLeft, absentRight, spellsLeft, spellsRight⟩
    obtain ⟨textLeft, textRight, parts, rfl, rfl⟩ :=
      map_compact_eq_pair_iff.1 (divided.2 ⟨whole, absentLeft, absentRight⟩)
    unfold read
    rw [parts]
    simp only [(readSide_eq_ok_iff valid).2 spellsLeft, (readSide_eq_ok_iff valid).2 spellsRight]
    rfl

/-- Only the equals sign of an equation divides it. -/
theorem undivided_of_spellsSide (valid : ∀ entry ∈ names, IsName entry.1.toList)
    (spells : SpellsSide names text terms) : '=' ∉ text := by
  have plain {run name rest : List Char} {f : FormId} (signs : SignRun run)
      (denotes : Names names name f) (later : '=' ∉ rest) : '=' ∉ run ++ name ++ rest := by
    have notSign : '=' ∉ run := fun member => absurd (signs _ member) (by decide)
    have undivided := (denotes.isName valid).undivided
    simp only [List.mem_append, notSign, undivided, later, or_self, not_false_eq_true]
  have further {rest : List Char} {terms : List (Signed FormId)}
      (continues : Continues names rest terms) : '=' ∉ rest := by
    induction continues with
    | done => simp
    | term signs _ denotes _ ih => exact plain signs denotes ih
  cases spells with
  | zero => decide
  | terms signs denotes continues => exact plain signs denotes (further continues)

/-! ## Rejections -/

namespace Alike

variable {α β : Type} {x y : Outcome α}

theorem bind {next next' : α → Outcome β} (first : Alike expression other x y)
    (continued : ∀ a, Alike expression other (next a) (next' a)) :
    Alike expression other (x >>= next) (y >>= next') := by
  cases first with
  | ok a => exact continued a
  | equalsCount => exact .equalsCount
  | unknownName name => exact .unknownName name
  | missingName => exact .missingName

end Alike

theorem lookup_alike :
    Alike expression other (lookup expression names name) (lookup other names name) := by
  unfold lookup
  cases names.find? (·.1.toList = name) with
  | none => exact .unknownName _
  | some entry => exact .ok _

theorem readTerms_alike {pending : List Char} :
    Alike expression other (readTerms expression names sign pending text)
      (readTerms other names sign pending text) := by
  induction text generalizing sign pending with
  | nil =>
    cases pending with
    | nil => exact .missingName
    | cons p pending =>
      rw [readTerms, readTerms]
      · exact lookup_alike.bind fun f => .ok _
      · simp
      · simp
  | cons c text ih =>
    rw [readTerms, readTerms]
    split
    · exact ih
    · split
      · exact ih
      · exact lookup_alike.bind fun f => ih.bind fun terms => .ok _

/-- Expressions that differ in blank characters only are read alike. -/
theorem read_alike (same : compact expression.toList = compact other.toList) :
    Alike expression other (read names expression) (read names other) := by
  have parts : (pieces '=' expression.toList).map compact =
      (pieces '=' other.toList).map compact := by
    rw [← pieces_compact (by decide), ← pieces_compact (by decide), same]
  have side {left right : List Char} (same : compact left = compact right) :
      Alike expression other (readSide expression names left) (readSide other names right) := by
    rw [readSide_eq, readSide_eq, same]
    split
    · exact .ok _
    · exact readTerms_alike
  unfold read
  split
  case h_1 left right divided =>
    rw [divided] at parts
    obtain ⟨left', right', divided', sameLeft, sameRight⟩ := map_compact_eq_pair_iff.1 parts.symm
    rw [divided']
    exact (side sameLeft.symm).bind fun l => (side sameRight.symm).bind fun r => .ok _
  case h_2 undivided =>
    split
    case h_1 left right divided =>
      rw [divided] at parts
      obtain ⟨left', right', divided', -, -⟩ := map_compact_eq_pair_iff.1 parts
      exact absurd divided' (undivided left' right')
    case h_2 => exact .equalsCount

/-! ## Written equations -/

section Written

variable {nameOf : FormId → String}

theorem names_nameOf (valid : ∀ entry ∈ names, IsName entry.1.toList)
    (denotes : Names names (nameOf f).toList f) : compact (nameOf f).toList = (nameOf f).toList :=
  compact_of_solid (denotes.isName valid).solid

theorem runSign_signChar (sign : Sign) : runSign [signChar sign] = sign := by
  cases sign <;> rfl

theorem writeNext_continues (valid : ∀ entry ∈ names, IsName entry.1.toList)
    (denoted : ∀ t ∈ terms, Names names (nameOf t.value).toList t.value) :
    Continues names (compact ((named nameOf terms).flatMap writeNext)) terms := by
  induction terms with
  | nil => exact .done
  | cons t terms ih =>
    rw [List.forall_mem_cons] at denoted
    have head : compact (writeNext ⟨t.sign, nameOf t.value⟩) =
        [signChar t.sign] ++ (nameOf t.value).toList := by
      rw [writeNext, compact_append, names_nameOf valid denoted.1]
      cases t.sign <;> rfl
    have signs : SignRun [signChar t.sign] := SignRun.cons_iff.2 ⟨⟨_, rfl⟩, by simp [SignRun]⟩
    have step := Continues.term signs (by simp) denoted.1 (ih denoted.2)
    rw [runSign_signChar] at step
    rw [named, List.map_cons, List.flatMap_cons, compact_append, head]
    exact step

theorem writeSide_spells (valid : ∀ entry ∈ names, IsName entry.1.toList)
    (denoted : ∀ t ∈ terms, Names names (nameOf t.value).toList t.value) :
    SpellsSide names (compact (writeSide (named nameOf terms))) terms := by
  cases terms with
  | nil => exact .zero
  | cons t terms =>
    rw [List.forall_mem_cons] at denoted
    have continues := writeNext_continues valid denoted.2
    rw [named, List.map_cons, writeSide, compact_append, compact_append,
      names_nameOf valid denoted.1]
    obtain ⟨sign, f⟩ := t
    cases sign with
    | plus => exact .terms (fun _ => nofun) denoted.1 continues
    | minus =>
      have signs : SignRun ['-'] := by simp [SignRun]
      exact .terms signs denoted.1 continues

theorem write_spells (valid : ∀ entry ∈ names, IsName entry.1.toList) {e : Equation FormId}
    (denoted : ∀ t ∈ e.terms, Names names (nameOf t.value).toList t.value) :
    Spells names (write ⟨named nameOf e.left, named nameOf e.right⟩).toList e := by
  have left := writeSide_spells valid fun t member => denoted t (List.mem_append_left _ member)
  have right := writeSide_spells valid fun t member => denoted t (List.mem_append_right _ member)
  refine ⟨_, _, ?_, undivided_of_spellsSide valid left, undivided_of_spellsSide valid right, left,
    right⟩
  rw [write, String.toList_ofList, compact_append, compact_append, List.append_assoc]
  rfl

end Written

/-! ## Exact reading -/

/-- With names that can be told apart from signs, equals signs and zero, reading does not see
blank characters, gives the equation that an expression spells and rejects an expression that
spells none. A written equation is read back, with blank characters anywhere in it. -/
theorem read_exact (valid : ∀ entry ∈ names, IsName entry.1.toList) (expression : String) :
    (∀ other : String, compact other.toList = compact expression.toList →
      Alike expression other (read names expression) (read names other)) ∧
    (∀ e, read names expression = .ok e ↔ Spells names expression.toList e) ∧
    ∀ (e : Equation FormId) (nameOf : FormId → String),
      (∀ t ∈ e.terms, Names names (nameOf t.value).toList t.value) →
      compact expression.toList =
        compact (write ⟨named nameOf e.left, named nameOf e.right⟩).toList →
      read names expression = .ok e := by
  refine ⟨fun other same => read_alike same.symm, fun e => read_eq_ok_iff valid, ?_⟩
  intro e nameOf denoted written
  rw [read_eq_ok_iff valid, Spells, written]
  exact write_spells valid denoted

theorem read_exact_signs :
    let names := [("x", (⟨4⟩ : FormId)), ("y", ⟨7⟩), ("x", ⟨9⟩)]
    (∀ entry ∈ names, IsName entry.1.toList) ∧
      Spells names "- x + - y = 0".toList ⟨[⟨.minus, ⟨4⟩⟩, ⟨.minus, ⟨7⟩⟩], []⟩ ∧
      ¬ ∃ e, Spells names "x + = y".toList e := by
  intro names
  have valid : ∀ entry ∈ names, IsName entry.1.toList := by
    simp only [names, List.forall_mem_cons]
    exact ⟨⟨by decide, by decide, by simp [isBlank], by decide, by decide⟩,
      ⟨by decide, by decide, by simp [isBlank], by decide, by decide⟩,
      ⟨by decide, by decide, by simp [isBlank], by decide, by decide⟩, by simp⟩
  refine ⟨valid, ((read_exact valid "- x + - y = 0").2.1 _).1 (by decide), ?_⟩
  rintro ⟨e, spells⟩
  have rejected : read names "x + = y" = reject (.malformed (.missingName "x + = y")) := by decide
  rw [((read_exact valid "x + = y").2.1 e).2 spells] at rejected
  cases rejected

end Variational.Pde.Expression

namespace Variational.Pde

open Expression

/-- A system is read from expressions exactly if they spell its equations, in order, and the
equations make a system. -/
theorem ofExpressions_eq_ok_iff {s : Session} {names : List (String × FormId)}
    {expressions : List String} {p : Pde} (valid : ∀ entry ∈ names, IsName entry.1.toList) :
    ofExpressions s names expressions = .ok p ↔
      ∃ equations, List.Forall₂ (fun text e => Spells names text.toList e) expressions equations ∧
        create s equations = .ok p := by
  have all {equations : List (Equation FormId)} :
      expressions.mapM (read names) = .ok equations ↔
        List.Forall₂ (fun text e => Spells names text.toList e) expressions equations := by
    simp only [← read_eq_ok_iff valid, Outcome.mapM_eq_ok]
  rw [ofExpressions, Outcome.bind_eq_ok]
  simp only [all]

end Variational.Pde
