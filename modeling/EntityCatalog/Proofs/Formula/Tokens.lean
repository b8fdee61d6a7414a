import EntityCatalog.Formula
import EntityCatalog.Proofs.Decimal.Literal

/- The tokens of a text. Any text is blanks and then nothing, a sign, a whole term or a stray
   character, and the first token is accordingly. A term ends where no character of the text could
   be a part of it any more. -/
namespace EntityCatalog
namespace Formula

def blankChars : List Char := [' ', '\t', '\n', '\x0c', '\r']

def Blanks (chars : List Char) : Prop := ∀ c ∈ chars, c ∈ blankChars

inductive WrittenTerm where
  | number (whole fraction : List Char)
  | name (first : Char) (rest : List Char)

namespace WrittenTerm

def chars : WrittenTerm → List Char
  | .number whole fraction => Decimal.literalChars whole fraction
  | .name first rest => first :: rest

/-- A number has a digit at least, and a name does not begin with one. -/
def WellFormed : WrittenTerm → Prop
  | .number whole fraction =>
      whole ≠ [] ∧ (∀ c ∈ whole, c.isDigit = true) ∧ ∀ c ∈ fraction, c.isDigit = true
  | .name first rest =>
      (first.isAlpha = true ∨ first = '_') ∧ ∀ c ∈ rest, c.isAlphanum = true ∨ c = '_'

def kind : WrittenTerm → TokenKind
  | .number _ _ => .number
  | .name _ _ => .variable

def token (term : WrittenTerm) (position : Nat) : Token := ⟨term.kind, term.chars, position⟩

end WrittenTerm

def signChar : Sign → Char
  | .plus => '+'
  | .minus => '-'

theorem isSpace_iff {c : Char} : isSpace c = true ↔ c ∈ blankChars := by
  simp [isSpace, blankChars, or_assoc]

theorem isNamePart_iff {c : Char} : isNamePart c = true ↔ c.isAlphanum = true ∨ c = '_' := by
  simp [isNamePart]

theorem tokensAfter_append (found earlier : List Token) (position : Nat) (chars : List Char) :
    tokensAfter (found ++ earlier) position chars =
      earlier.reverse ++ tokensAfter found position chars := by
  fun_induction tokensAfter found position chars with
  | case1 found position => simp [tokensAfter]
  | case2 found position first rest blank ih =>
    rw [tokensAfter, if_pos blank]
    exact ih
  | case3 found position first rest visible token c stray =>
    simp only [token] at stray
    rw [tokensAfter, if_neg visible]
    simp [stray, token]
  | case4 found position first rest visible token other ih =>
    rw [tokensAfter, if_neg visible]
    simp only
    split
    · rename_i c stray
      exact absurd stray (other c)
    · exact ih

theorem tokensAfter_blanks {gap : List Char} (blank : Blanks gap) (position : Nat)
    (rest : List Char) :
    tokensAfter [] position (gap ++ rest) = tokensAfter [] (position + gap.length) rest := by
  induction gap generalizing position with
  | nil => rfl
  | cons c others ih =>
    have space : isSpace c = true := isSpace_iff.mpr (blank c (by simp))
    have onward := ih (fun later member => blank later (by simp [member])) (position + 1)
    rw [List.cons_append, tokensAfter, if_pos space, onward, List.length_cons]
    congr 1
    omega

theorem tokensAfter_token {position : Nat} {first : Char} {others rest : List Char} {token : Token}
    (visible : isSpace first = false) (here : firstToken position first others = token)
    (usual : ∀ c, token.kind ≠ .stray c) (split : first :: others = token.lexeme ++ rest) :
    tokensAfter [] position (first :: others) =
      token :: tokensAfter [] (position + utf8Length token.lexeme) rest := by
  have behind : (first :: others).drop token.lexeme.length = rest := by
    rw [split, List.drop_left]
  have onward := tokensAfter_append [] [token] (position + utf8Length token.lexeme) rest
  rw [tokensAfter, if_neg (by simp [visible]), here]
  simp only [behind]
  exact onward

theorem tokensAfter_stray {position : Nat} {first : Char} {others : List Char}
    (visible : isSpace first = false)
    (here : firstToken position first others = ⟨.stray first, [first], position⟩) :
    tokensAfter [] position (first :: others) = [⟨.stray first, [first], position⟩] := by
  rw [tokensAfter, if_neg (by simp [visible]), here]
  rfl

theorem all_takeWhile {p : Char → Bool} {chars : List Char} :
    ∀ c ∈ chars.takeWhile p, p c = true :=
  List.all_eq_true.mp List.all_takeWhile

end Formula
end EntityCatalog
