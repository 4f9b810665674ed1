import LinkedCommit.Commitment.Basic
import LinkedCommit.Document.Canonical
import LinkedCommit.Proofs.Result
/-!
# Documents with their datasets

A document is committed by way of its canonical dataset.  The dataset of statements without blank
nodes are the statements in their order (`canonicalDataset_of_sorted`), and what is committed with a
dataset at hand is committed with whatever makes it of the document (`exists_ofDocument`).
-/

set_option autoImplicit false

namespace LinkedCommit

def textQuad (id property text : String) : Quad :=
  ⟨.iri id, .iri property, .literal ⟨text, Xsd.string, none⟩, none⟩

namespace Canonical

theorem relabel_eq_self {q : Quad} (noBlank : mentions q = []) (f : String → String) :
    relabel f q = q := by
  obtain ⟨subject, predicate, object, graph⟩ := q
  rcases graph with _ | graph
  · cases subject <;> cases object <;> simp [mentions, mentionOf] at noBlank <;> rfl
  · cases subject <;> cases object <;> cases graph <;> simp [mentions, mentionOf] at noBlank <;> rfl

theorem facts_eq_empty {quads : List Quad} (noBlank : ∀ q ∈ quads, mentions q = []) :
    Facts.ofQuads quads = ⟨[], []⟩ := by
  have nothing : quads.foldl (fun map q => (mentions q).foldl
      (fun map m => NameMap.update m.node (fun old => old.getD [] ++ [q]) map) map)
      ([] : NameMap (List Quad)) = [] := by
    induction quads with
    | nil => rfl
    | cons q rest ih =>
        rw [List.foldl_cons, noBlank q List.mem_cons_self]
        exact ih fun other member => noBlank other (List.mem_cons_of_mem q member)
  rw [Facts.ofQuads]
  simp only [nothing]
  rfl

theorem quads?_eq_mergeSort {quads : List Quad} (noBlank : ∀ q ∈ quads, mentions q = []) :
    quads? quads = some (quads.mergeSort fun a b => !quadLt b a) := by
  have labelled : labels quads = some Issuer.canonical := by
    rw [labels, facts_eq_empty noBlank]
    rfl
  have same : quads.map (relabel fun node => (Issuer.canonical.label? node).getD node) = quads := by
    rw [List.map_congr_left fun q member => relabel_eq_self (noBlank q member) _, List.map_id']
  rw [quads?, labelled]
  show some (List.mergeSort _ _) = _
  rw [same]

end Canonical

/-- Statements without blank nodes make the dataset in their order. -/
theorem canonicalDataset_of_sorted {loader : Loader} {document : Json} {quads sorted : List Quad}
    {d : Dataset}
    (computed : (inlineContexts loader document).passes (fun inlined =>
      (Expansion.expandDocument documentBase inlined).passes fun items =>
        Expansion.statements items = quads) = true)
    (noBlank : ∀ q ∈ quads, Canonical.mentions q = [])
    (order : quads.mergeSort (fun a b => !Canonical.quadLt b a) = sorted)
    (readBack : NQuads.read? (NQuads.text sorted) = some d) :
    canonicalDataset loader document = .ok d := by
  obtain ⟨inlined, inlining, computed⟩ := Except.exists_of_passes computed
  obtain ⟨items, expanded, told⟩ := Except.exists_of_passes computed
  rw [canonicalDataset, inlining]
  show (Except.mapError _ (Expansion.expandDocument documentBase inlined) >>= _) = _
  rw [expanded]
  show datasetOf (Expansion.statements items) = _
  rw [of_decide_eq_true told, datasetOf, Canonical.quads?_eq_mergeSort noBlank, order]
  simp only [readBack]

theorem canonicalDataset_of_ordered {loader : Loader} {document : Json} {quads : List Quad}
    {d : Dataset}
    (computed : (inlineContexts loader document).passes (fun inlined =>
      (Expansion.expandDocument documentBase inlined).passes fun items =>
        Expansion.statements items = quads) = true)
    (noBlank : ∀ q ∈ quads, Canonical.mentions q = [])
    (order : quads.Pairwise fun a b => Canonical.quadLt b a = false)
    (readBack : NQuads.read? (NQuads.text quads) = some d) :
    canonicalDataset loader document = .ok d := by
  refine canonicalDataset_of_sorted computed noBlank ?_ readBack
  exact List.mergeSort_of_pairwise (order.imp fun before => by rw [before]; rfl)

namespace Commitment

theorem ofDocument_congr {source : List UInt8} {options : CommitOptions} {document : Json}
    (processor : Processor) (read : readDocument source = .ok document)
    (same : options.processor options.loader document = processor options.loader document) :
    ofDocument source options = ofDocument source { options with processor } := by
  simp only [ofDocument, read, bind, Except.bind, same]

/-- A commitment computed with the dataset of the document at hand. -/
theorem exists_ofDocument {source : List UInt8} {document : Json} {d : Dataset}
    (options : CommitOptions) (test : Commitment → Bool)
    (read : readDocument source = .ok document)
    (processed : options.processor options.loader document = .ok d)
    (computed : (ofDocument source { options with processor := fun _ _ => .ok d }).passes test =
      true) : ∃ c, ofDocument source options = .ok c ∧ test c = true := by
  rw [ofDocument_congr (fun _ _ => .ok d) read processed]
  exact Except.exists_of_passes computed

end Commitment

end LinkedCommit
