import EntityCatalog.Proofs.Decimal.Reading
import EntityCatalog.Proofs.Decimal.Value

/- Plain literals: digits, and more digits behind a point. A literal that is read has the value of
   all its digits, divided by ten for each digit behind the point, unless it is so long that its
   zeros cannot be counted. -/
namespace EntityCatalog
namespace Decimal

def literalChars (whole fraction : List Char) : List Char :=
  if fraction = [] then whole else whole ++ '.' :: fraction

end Decimal
end EntityCatalog
