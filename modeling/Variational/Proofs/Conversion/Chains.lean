import Mathlib.Data.List.Chain
import Variational.Proofs.Conversion.Runs

/-!
# Chains of converted terms

Whatever the settings are, the chain of a converted term starts with the transposed
links of the test form, and no transposed link stands behind the others. Under the
default conventions only a boundary pairing has a boundary vector in its chain.
-/

namespace Variational

open Derive

variable {s s' : Session}

/-! ## Shapes -/

theorem Session.dofLabel_ne_one {space : SpaceId} {label : String}
    (labelled : s.dofLabel space = .ok label) : label ≠ "1" := by
  obtain ⟨sp, d, -, -, rfl⟩ := dofLabel_eq_ok_iff.1 labelled
  intro same
  have dash : '-' ∈ (s!"{sp.labels.lin}-{d}" : String).toList := by
    simp [toString]
  rw [same] at dash
  exact absurd dash (by decide)

/-- The rows of an array are those of a space. -/
theorem Session.Represents.rows_ne_one {a : RootArray} (represents : s.Represents a) :
    a.shape.rows ≠ "1" := by
  obtain ⟨sym, pureLin, shape, kind⟩ := a
  cases kind with
  | vector f =>
    obtain ⟨form, lin, rows, -, -, labelled, -, rfl⟩ := represents
    exact dofLabel_ne_one labelled
  | massMatrix space =>
    obtain ⟨sp, rows, -, labelled, -, rfl⟩ := represents
    exact dofLabel_ne_one labelled
  | incidenceMatrix space =>
    obtain ⟨sp, target, rows, cols, -, -, -, labelled, -, rfl⟩ := represents
    exact dofLabel_ne_one labelled
  | wedgeVector f space =>
    obtain ⟨form, lin, sp, rows, -, -, -, labelled, -, rfl⟩ := represents
    exact dofLabel_ne_one labelled

/-- An array that stands for a form is a column. -/
theorem Session.Represents.cols_eq_one {a : RootArray} (represents : s.Represents a)
    (depends : a.dependsOnForm = true) : a.shape.cols = "1" := by
  obtain ⟨sym, pureLin, shape, kind⟩ := a
  cases kind with
  | vector f =>
    obtain ⟨form, lin, rows, -, -, -, -, rfl⟩ := represents
    rfl
  | wedgeVector f space =>
    obtain ⟨form, lin, sp, rows, -, -, -, -, -, rfl⟩ := represents
    rfl
  | _ => cases depends

/-! ## Chains -/

theorem Session.link_spec {array : ArrayId} {transposed : Bool} {link : Link}
    (run : s.link array transposed = .ok link) : link.transposed = transposed ∧
      s.link link.array link.transposed = .ok link ∧
      ∃ a, s.arrays.get? link.array = some a ∧
        link.shape = if link.transposed then a.shape.transposed else a.shape := by
  have linked := run
  simp only [Session.link, Outcome.bind_eq_ok, Outcome.pure_eq_ok] at run
  obtain ⟨a, found, rfl⟩ := run
  exact ⟨rfl, linked, a, Arena.fetch_eq_ok_iff.1 found, rfl⟩

/-- Links to arrays of the session, transposed or not. -/
def Session.LinksTo (s : Session) (transposed : Bool) (links : List Link) : Prop :=
  ∀ l ∈ links, l.transposed = transposed ∧ s.link l.array l.transposed = .ok l

theorem Session.linksTo_singleton {transposed : Bool} {link : Link} :
    s.LinksTo transposed [link] ↔
      link.transposed = transposed ∧ s.link link.array link.transposed = .ok link := by
  simp [LinksTo]

/-- A chain of links to arrays of the session in which shapes fit, and in which no transposed
link stands behind one that is not transposed. -/
structure Session.Chains (s : Session) (chain : List Link) : Prop where
  fits : Product.Fits chain
  linked : ∀ l ∈ chain, s.link l.array l.transposed = .ok l
  ordered : chain.Pairwise fun l m => l.transposed = false → m.transposed = false

namespace Session

theorem Extends.chains (later : s.Extends s') {chain : List Link} (chains : s.Chains chain) :
    s'.Chains chain :=
  { chains with linked := fun l member => later.link_eq_ok (chains.linked l member) }

theorem Chains.tail {chain : List Link} (chains : s.Chains chain) : s.Chains chain.tail where
  fits := chains.fits.tail
  linked l member := chains.linked l (List.mem_of_mem_tail member)
  ordered := chains.ordered.tail

/-- A column that is not transposed stands last. -/
theorem Chains.getLast?_eq {chain : List Link} (chains : s.Chains chain) (sound : s.Sound)
    {l : Link} (member : l ∈ chain) (plain : l.transposed = false) {a : RootArray}
    (found : s.arrays.get? l.array = some a) (depends : a.dependsOnForm = true) :
    chain.getLast? = some l := by
  obtain ⟨before, after, rfl⟩ := List.append_of_mem member
  cases after with
  | nil => exact List.getLast?_concat
  | cons m rest =>
    -- The rows of the next link would be one.
    have fit : l.shape.cols = m.shape.rows :=
      (List.isChain_cons_cons.1 chains.fits.right_of_append).1
    have plainNext : m.transposed = false :=
      (List.pairwise_cons.1 (List.pairwise_append.1 chains.ordered).2.1).1 m
        List.mem_cons_self plain
    obtain ⟨-, -, a', found', shape⟩ := link_spec (chains.linked l (by simp))
    obtain ⟨-, -, b, foundNext, shapeNext⟩ := link_spec (chains.linked m (by simp))
    cases found.symm.trans found'
    simp only [plain, plainNext, Bool.false_eq_true, if_false] at shape shapeNext
    rw [shape, shapeNext, (sound.arrays found).cols_eq_one depends] at fit
    exact absurd fit.symm (sound.arrays foundNext).rows_ne_one

end Session

/-! ## Converted terms -/

namespace Term

variable {t : Term} {v g : FormId}

theorem testChain_linksTo {links : List Link} (run : t.testChain v s = .ok (some links) s') :
    s'.LinksTo true links := by
  obtain ⟨vector, mid, front, -, linked, branch⟩ := testChain_cases run
  obtain ⟨plain, self, -⟩ := Session.link_spec linked
  rcases branch with ⟨-, same, rfl⟩ | ⟨form, incidence, back, -, -, taken, linkedBack, same⟩ |
    ⟨-, -, none, -⟩
  · cases same
    exact Session.linksTo_singleton.2 ⟨plain, self⟩
  · cases same
    have later := (RootArray.incidenceMatrix_grows _).extends taken
    obtain ⟨plainBack, selfBack, -⟩ := Session.link_spec linkedBack
    simpa [Session.LinksTo] using
      ⟨⟨plain, later.link_eq_ok self⟩, plainBack, selfBack⟩
  · cases none

theorem formChain_linksTo {links : List Link} (run : formChain g s = .ok (some links) s') :
    s'.LinksTo false links := by
  obtain ⟨form, -, branch⟩ := formChain_cases run
  rcases branch with ⟨-, mass, mid, vector, front, back, -, -, linkedFront, linkedBack, same⟩ |
    ⟨u, inner, -, -, -, mass, mid, incidence, next, vector, front, middle, back, -, -, -,
      linkedFront, linkedMiddle, linkedBack, same⟩ | ⟨-, none, -⟩
  · cases same
    obtain ⟨plainFront, selfFront, -⟩ := Session.link_spec linkedFront
    obtain ⟨plainBack, selfBack, -⟩ := Session.link_spec linkedBack
    simpa [Session.LinksTo] using ⟨⟨plainFront, selfFront⟩, plainBack, selfBack⟩
  · cases same
    obtain ⟨plainFront, selfFront, -⟩ := Session.link_spec linkedFront
    obtain ⟨plainMiddle, selfMiddle, -⟩ := Session.link_spec linkedMiddle
    obtain ⟨plainBack, selfBack, -⟩ := Session.link_spec linkedBack
    simpa [Session.LinksTo] using
      ⟨⟨plainFront, selfFront⟩, ⟨plainMiddle, selfMiddle⟩, plainBack, selfBack⟩
  · cases none

/-- Transposed links in front of others make up a chain. -/
theorem chains_append {front core : List Link} (fits : Product.Fits (front ++ core))
    (transposed : s.LinksTo true front) (plain : s.LinksTo false core) :
    s.Chains (front ++ core) where
  fits := fits
  linked l member := by
    rcases List.mem_append.1 member with inFront | inCore
    · exact (transposed l inFront).2
    · exact (plain l inCore).2
  ordered := by
    refine List.pairwise_append.2 ⟨?_, ?_, ?_⟩
    · exact List.pairwise_of_forall_mem_list fun l inFront m _ false =>
        absurd ((transposed l inFront).1.symm.trans false) (by decide)
    · exact List.pairwise_of_forall_mem_list fun l _ m inCore _ => (plain m inCore).1
    · exact fun l _ m inCore _ => (plain m inCore).1

theorem convertInnerProduct_chains {p : Signed Product}
    (run : convertInnerProduct t v s = .ok (.converted p) s') : s'.Chains p.value.chain := by
  simp only [convertInnerProduct, bind_eq_ok] at run
  obtain ⟨front, mid, tested, run⟩ := run
  cases front with
  | none =>
    obtain ⟨none, -⟩ := pure_eq_ok.1 run
    cases none
  | some front =>
    simp only [bind_eq_ok] at run
    obtain ⟨⟨factor, g⟩, next, split, core, last, expanded, run⟩ := run
    cases core with
    | none =>
      obtain ⟨none, -⟩ := pure_eq_ok.1 run
      cases none
    | some core =>
      simp only [bind_eq_ok, lift_eq_ok, pure_eq_ok] at run
      obtain ⟨p', _, ⟨created, rfl⟩, same, rfl⟩ := run
      cases same
      obtain ⟨fits, rfl⟩ := Product.create_eq_ok.1 created
      have later := ((splitFactor_grows t.f1).steps split).extends.trans
        ((formChain_grows g).extends expanded)
      refine chains_append fits (fun l inFront => ?_) (formChain_linksTo expanded)
      obtain ⟨transposed, linked⟩ := testChain_linksTo tested l inFront
      exact ⟨transposed, later.link_eq_ok linked⟩

theorem convertPairing_chains {p : Signed Product}
    (run : convertPairing t v s = .ok (.converted p) s') : s'.Chains p.value.chain := by
  simp only [convertPairing, bind_eq_ok, get_eq_ok, lift_eq_ok] at run
  obtain ⟨_, _, ⟨rfl, rfl⟩, paired, _, ⟨boundary, rfl⟩, run⟩ := run
  cases paired with
  | none =>
    obtain ⟨none, -⟩ := pure_eq_ok.1 run
    cases none
  | some u =>
    simp only [bind_eq_ok, get_eq_ok, lift_eq_ok, pure_eq_ok] at run
    obtain ⟨vector, mid, -, _, _, ⟨rfl, rfl⟩, form, _, ⟨-, rfl⟩, wedge, next, -, factor, last, -,
      _, _, ⟨rfl, rfl⟩, front, _, ⟨linkedFront, rfl⟩, back, _, ⟨linkedBack, rfl⟩, p', _,
      ⟨created, rfl⟩, same, rfl⟩ := run
    cases same
    obtain ⟨fits, rfl⟩ := Product.create_eq_ok.1 created
    obtain ⟨transposed, selfFront, -⟩ := Session.link_spec linkedFront
    obtain ⟨plain, selfBack, -⟩ := Session.link_spec linkedBack
    have test := Session.linksTo_singleton.2 ⟨transposed, selfFront⟩
    have core := Session.linksTo_singleton.2 ⟨plain, selfBack⟩
    exact chains_append fits test core

/-- A converted term has a chain. -/
theorem convert_chains {p : Signed Product} (run : convert t v s = .ok (.converted p) s') :
    s'.Chains p.value.chain := by
  rw [convert] at run
  cases kind : t.kind with
  | innerProduct =>
    rw [kind] at run
    exact convertInnerProduct_chains run
  | dualityPairing =>
    rw [kind] at run
    exact convertPairing_chains run

/-! ## Boundary pairings -/

/-- The term `<tr ⋆u, tr v>`. -/
def IsBoundaryPairing (s : Session) (t : Term) (u v : FormId) : Prop :=
  t.kind = .dualityPairing ∧ ∃ h, s.Reads t.f1 (.unary .trace h) ∧
    s.Reads h (.unary .hodge u) ∧ s.Reads t.f2 (.unary .trace v)

theorem IsBoundaryPairing.mono {u : FormId} (later : s.Extends s')
    (pairing : t.IsBoundaryPairing s u v) : t.IsBoundaryPairing s' u v := by
  obtain ⟨kind, h, first, hodge, second⟩ := pairing
  exact ⟨kind, h, later.reads first, later.reads hodge, later.reads second⟩

/-- No link of an inner product is a boundary vector. -/
theorem TestFormed.kind_ne {f u : FormId} {space : SpaceId} {kinds : List LinkKind}
    (formed : TestFormed s v f kinds) :
    ∀ item ∈ kinds, item.kind ≠ .wedgeVector u space := by
  cases formed <;> simp

theorem Expanded.kind_ne {u : FormId} {space : SpaceId} {kinds : List LinkKind}
    (expanded : Expanded s g kinds) : ∀ item ∈ kinds, item.kind ≠ .wedgeVector u space := by
  cases expanded <;> simp

/-- A boundary vector stands only in the chain of a boundary pairing. -/
theorem Represented.boundaryPairing {c : ScalarId} {kinds : List LinkKind} {chain : List Link}
    (represented : Represented s s' t v c kinds) (links : chain.Forall₂ s'.IsLink kinds)
    {l : Link} (member : l ∈ chain) {u : FormId} {space : SpaceId}
    (stands : s'.StandsFor l.array (.wedgeVector u space)) :
    t.IsBoundaryPairing s u v ∧ ∃ front, chain = [front, l] := by
  have same : ∀ {item : LinkKind}, s'.IsLink l item → item.kind = .wedgeVector u space := by
    rintro ⟨kind, transposed⟩ isLink
    obtain ⟨a, found, own, -⟩ := isLink.array
    exact Session.StandsFor.unique ⟨a, found, own⟩ stands
  cases represented with
  | innerProduct _ test _ form =>
    obtain ⟨item, inKinds, isLink⟩ := exists_mem_of_forall₂ links.flip member
    rcases List.mem_append.1 inKinds with inFront | inCore
    · exact absurd (same isLink) (test.kind_ne item inFront)
    · exact absurd (same isLink) (form.kind_ne item inCore)
  | dualityPairing kind first hodge root second found unit =>
    obtain _ | ⟨front, _ | ⟨back, ⟨⟩⟩⟩ := links
    simp only [List.mem_cons, List.not_mem_nil, or_false] at member
    rcases member with rfl | rfl
    · cases same front
    · cases same back
      exact ⟨⟨kind, _, first, hodge, second⟩, _, rfl⟩

end Term

end Variational
