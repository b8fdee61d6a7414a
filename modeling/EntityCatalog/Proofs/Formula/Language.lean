import EntityCatalog.Proofs.Formula.Bytewise

/- What is read of a formula. A text of the language whose numbers are not refused is read, and what
   comes out are its terms in their order, each name as it stands and each number as its literal is
   read, which is with the value of its digits unless there are too many of them to count. -/
namespace EntityCatalog
namespace Formula
namespace WrittenTerm

end WrittenTerm

end Formula
end EntityCatalog
