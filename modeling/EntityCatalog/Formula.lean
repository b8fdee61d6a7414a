import EntityCatalog.Decimal.Text
import EntityCatalog.Text

/- Additive formulas. A formula is a text of plus, minus, numbers and variable names with ASCII white
   space between them; a character that begins no token ends the list of tokens as a stray. Read, it is
   a sum of signed terms, each a number or a variable, and it is evaluated from left to right starting
   at zero. -/
namespace EntityCatalog

/-! ### Tokens -/

inductive TokenKind where
  | number
  | variable
  | plus
  | minus
  | stray (found : Char)
  deriving DecidableEq

/-- The position is the byte offset of the lexeme in the formula. -/
structure Token where
  kind : TokenKind
  lexeme : List Char
  position : Nat
  deriving DecidableEq

def isSpace (c : Char) : Bool :=
  c = ' ' || c = '\t' || c = '\n' || c = '\x0c' || c = '\r'

def isNameStart (c : Char) : Bool := c.isAlpha || c = '_'

def isNamePart (c : Char) : Bool := c.isAlphanum || c = '_'

/-- The longest number at the front: digits, and a point only where digits follow it. -/
def numberLexeme (chars : List Char) : List Char :=
  let whole := chars.takeWhile Char.isDigit
  match chars.dropWhile Char.isDigit with
  | '.' :: rest =>
      let fraction := rest.takeWhile Char.isDigit
      if fraction = [] then whole else whole ++ '.' :: fraction
  | _ => whole

def firstToken (position : Nat) (first : Char) (rest : List Char) : Token :=
  if first = '+' then ⟨.plus, [first], position⟩
  else if first = '-' then ⟨.minus, [first], position⟩
  else if first.isDigit then ⟨.number, numberLexeme (first :: rest), position⟩
  else if isNameStart first then ⟨.variable, first :: rest.takeWhile isNamePart, position⟩
  else ⟨.stray first, [first], position⟩

theorem firstToken_lexeme_positive (position : Nat) (first : Char) (rest : List Char) :
    0 < (firstToken position first rest).lexeme.length := by
  unfold firstToken
  split
  · simp
  · split
    · simp
    · split
      · rename_i digit
        simp only [numberLexeme, List.takeWhile_cons, digit, if_true]
        split
        · split <;> simp
        · simp
      · split <;> simp

/-- The tokens after those already found, which are kept last first. -/
def tokensAfter (found : List Token) (position : Nat) : List Char → List Token
  | [] => found.reverse
  | first :: rest =>
      if isSpace first then tokensAfter found (position + 1) rest
      else
        let token := firstToken position first rest
        match token.kind with
        | .stray _ => (token :: found).reverse
        | _ => tokensAfter (token :: found) (position + utf8Length token.lexeme)
            ((first :: rest).drop token.lexeme.length)
termination_by chars => chars.length
decreasing_by
  · simp
  · have := firstToken_lexeme_positive position first rest
    simp only [List.length_drop, List.length_cons]
    omega

def tokens (text : String) : List Token := tokensAfter [] 0 text.toList

/-! ### Sums -/

structure Formula where
  text : String
  deriving DecidableEq, Inhabited

inductive Sign where
  | plus
  | minus
  deriving DecidableEq

inductive Term where
  | number (value : Decimal)
  | variable (name : String)
  deriving DecidableEq

structure SignedSum where
  terms : List (Sign × Term)
  deriving DecidableEq

inductive Expected where
  | term
  | operator
  deriving DecidableEq

def Expected.text : Expected → String
  | .term => "term"
  | .operator => "operator"

inductive Formula.Fault where
  | empty
  | unexpectedCharacter (position : Nat) (found : Char)
  | invalidNumber (literal : String) (source : Decimal.Fault)
  | unexpectedToken (position : Nat) (expected : Expected) (found : String)
  | unexpectedEnd (expected : Expected)
  | unresolvedVariable (name : String)
  | overflow
  deriving DecidableEq

def Formula.Fault.message : Formula.Fault → String
  | .empty => "expression is empty"
  | .unexpectedCharacter position found =>
      "unexpected character " ++ quotedChar found ++ " at position " ++ toString position
  | .invalidNumber literal source =>
      "invalid number " ++ quoted literal ++ ": " ++ source.message
  | .unexpectedToken position expected found =>
      "expected " ++ expected.text ++ " at position " ++ toString position ++ ", found " ++ found
  | .unexpectedEnd expected => "expected " ++ expected.text ++ " at end of expression"
  | .unresolvedVariable name => "unresolved variable " ++ quoted name
  | .overflow => "arithmetic overflow"

namespace Formula

def unexpected (expected : Expected) (token : Token) : Fault :=
  match token.kind with
  | .stray found => .unexpectedCharacter token.position found
  | _ => .unexpectedToken token.position expected (String.ofList token.lexeme)

def readTerm (token : Token) : Except Fault Term :=
  match token.kind with
  | .number =>
      match Decimal.parse (String.ofList token.lexeme) with
      | .ok value => .ok (.number value)
      | .error source => .error (.invalidNumber (String.ofList token.lexeme) source)
  | .variable => .ok (.variable (String.ofList token.lexeme))
  | _ => .error (unexpected .term token)

def readSign (token : Token) : Except Fault Sign :=
  match token.kind with
  | .plus => .ok .plus
  | .minus => .ok .minus
  | _ => .error (unexpected .operator token)

/-- Reads operators and terms in turn. The terms already read are kept last first. -/
def readTerms (read : List (Sign × Term)) : List Token → Except Fault SignedSum
  | [] => .ok ⟨read.reverse⟩
  | [operator] =>
      match readSign operator with
      | .error fault => .error fault
      | .ok _ => .error (.unexpectedEnd .term)
  | operator :: operand :: rest =>
      match readSign operator with
      | .error fault => .error fault
      | .ok sign =>
          match readTerm operand with
          | .error fault => .error fault
          | .ok term => readTerms ((sign, term) :: read) rest

def parse (formula : Formula) : Except Fault SignedSum :=
  if formula.text.isEmpty then .error .empty
  else
    match tokens formula.text with
    | [] => .error (.unexpectedEnd .term)
    | first :: rest =>
        match readTerm first with
        | .error fault => .error fault
        | .ok term => readTerms [(.plus, term)] rest

end Formula

def Sign.apply? : Sign → Decimal → Decimal → Option Decimal
  | .plus, total, value => total.add? value
  | .minus, total, value => total.sub? value

namespace SignedSum

/-- Adds up signed terms from left to right. The resolver may have effects, and is asked for each
    variable in turn until a term fails. -/
def addTerms {m : Type → Type} [Monad m] (resolve : String → m (Option Decimal)) :
    Decimal → List (Sign × Term) → m (Except Formula.Fault Decimal)
  | total, [] => pure (.ok total)
  | total, (sign, .number value) :: rest =>
      match sign.apply? total value with
      | some next => addTerms resolve next rest
      | none => pure (.error .overflow)
  | total, (sign, .variable name) :: rest => do
      match ← resolve name with
      | none => pure (.error (.unresolvedVariable name))
      | some value =>
          match sign.apply? total value with
          | some next => addTerms resolve next rest
          | none => pure (.error .overflow)

def evaluate {m : Type → Type} [Monad m] (resolve : String → m (Option Decimal))
    (sum : SignedSum) : m (Except Formula.Fault Decimal) :=
  addTerms resolve .zero sum.terms

def variableNames (sum : SignedSum) : List String :=
  sum.terms.filterMap fun
    | (_, .variable name) => some name
    | (_, .number _) => none

end SignedSum

def Formula.evaluate {m : Type → Type} [Monad m] (resolve : String → m (Option Decimal))
    (formula : Formula) : m (Option Decimal) :=
  match formula.parse with
  | .error _ => pure none
  | .ok sum => do
      match ← sum.evaluate resolve with
      | .ok value => pure (some value)
      | .error _ => pure none

def Formula.variableNames (formula : Formula) : List String :=
  match formula.parse with
  | .ok sum => sum.variableNames
  | .error _ => []

end EntityCatalog
