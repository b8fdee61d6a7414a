import EntityCatalog.Proofs.Formula.Tokens
import EntityCatalog.Proofs.Results

/- The language of formulas, and that nothing else is read. A formula is a term, and then signs and
   terms in turn, with blanks anywhere around them. It is read term by term. -/
namespace EntityCatalog
namespace Formula

abbrev SignedTerm := Sign × WrittenTerm

inductive WritesRest : List SignedTerm → List Char → Prop where
  | nothing {gap : List Char} (blank : Blanks gap) : WritesRest [] gap
  | more {before between rest : List Char} {sign : Sign} {term : WrittenTerm}
      {terms : List SignedTerm} (blank_before : Blanks before) (blank_between : Blanks between)
      (well_formed : term.WellFormed) (others : WritesRest terms rest) :
      WritesRest ((sign, term) :: terms)
        (before ++ signChar sign :: (between ++ (term.chars ++ rest)))

inductive Writes : List SignedTerm → List Char → Prop where
  | sum {before rest : List Char} {term : WrittenTerm} {terms : List SignedTerm}
      (blank : Blanks before) (well_formed : term.WellFormed) (others : WritesRest terms rest) :
      Writes ((.plus, term) :: terms) (before ++ (term.chars ++ rest))

namespace WrittenTerm

def read (term : WrittenTerm) : Except Fault Term := readTerm (term.token 0)

end WrittenTerm

theorem readTerms_of_fault {token : Token} {fault : Fault} (refused : readSign token = .error fault)
    (read : List (Sign × Term)) (rest : List Token) :
    readTerms read (token :: rest) = .error fault := by
  cases rest with
  | nil => simp only [readTerms, refused]
  | cons operand others => simp only [readTerms, refused]

theorem WritesRest.well_formed {terms : List SignedTerm} {chars : List Char}
    (written : WritesRest terms chars) : ∀ term ∈ terms, term.2.WellFormed := by
  induction written with
  | nothing blank => simp
  | more blank_before blank_between well_formed others ih =>
    exact List.forall_mem_cons.mpr ⟨well_formed, ih⟩

theorem Writes.well_formed {terms : List SignedTerm} {chars : List Char}
    (written : Writes terms chars) : ∀ term ∈ terms, term.2.WellFormed := by
  cases written with
  | sum blank well_formed others =>
    exact List.forall_mem_cons.mpr ⟨well_formed, others.well_formed⟩

end Formula
end EntityCatalog
