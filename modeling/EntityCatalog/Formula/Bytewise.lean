import EntityCatalog.Decimal.Text
import EntityCatalog.Formula

/- Reading a formula from the bytes of its text. Blanks, numbers and names are passed byte by byte,
   and each token is cut out of the text where its first byte and its end were found; a cut inside a
   character gives neither a sum nor a fault. -/
namespace EntityCatalog
namespace Formula
open Guarded

def fractionEnd (bytes : Bytes) (whole : Nat) : Nat :=
  if bytes[whole]? = some '.'.toUInt8 ∧ bytes[whole + 1]?.any (byteIn Char.isDigit) then
    passWhile Char.isDigit bytes (whole + 1)
  else whole

def numberEnd (bytes : Bytes) (start : Nat) : Nat :=
  fractionEnd bytes (passWhile Char.isDigit bytes start)

/-- The kind of the token whose first byte stands at a position, and the end of the token; nothing
    for a byte that begins none. -/
def tokenEnd? (bytes : Bytes) (start : Nat) (first : UInt8) : Option (TokenKind × Nat) :=
  if first = '+'.toUInt8 then some (.plus, start + 1)
  else if first = '-'.toUInt8 then some (.minus, start + 1)
  else if byteIn Char.isDigit first then some (.number, numberEnd bytes start)
  else if byteIn isNameStart first then some (.variable, passWhile isNamePart bytes start)
  else none

def tokenFrom (text : String) (start : Nat) : Guarded Fault (Option (Token × Nat)) :=
  match (utf8 text)[start]? with
  | none => .ok none
  | some first =>
      match tokenEnd? (utf8 text) start first with
      | some (kind, stop) => do
          let lexeme ← within (sliceText? text start stop)
          .ok (some (⟨kind, lexeme.toList, start⟩, stop))
      | none => do
          let rest ← within (sliceText? text start (utf8 text).length)
          refused (.unexpectedCharacter start (rest.toList.head?.getD '\ufffd'))

def nextToken (text : String) (position : Nat) : Guarded Fault (Option (Token × Nat)) :=
  tokenFrom text (passWhile isSpace (utf8 text) position)

def termOf (token : Token) : Guarded Fault Term :=
  match token.kind with
  | .number =>
      match Decimal.parseBytewise (String.ofList token.lexeme) with
      | .ok value => .ok (.number value)
      | .error source =>
          .error (source.map fun fault => .invalidNumber (String.ofList token.lexeme) fault)
  | .variable => .ok (.variable (String.ofList token.lexeme))
  | _ => refused (unexpected .term token)

def parseTerm (text : String) (position : Nat) : Guarded Fault (Term × Nat) :=
  match nextToken text position with
  | .error fault => .error fault
  | .ok none => refused (.unexpectedEnd .term)
  | .ok (some (token, stop)) => do
      let term ← termOf token
      .ok (term, stop)

theorem passWhile_ge (p : Char → Bool) (bytes : Bytes) (position : Nat) :
    position ≤ passWhile p bytes position :=
  Nat.le_add_right _ _

theorem passWhile_gt {p : Char → Bool} {bytes : Bytes} {position : Nat} {first : UInt8}
    (found : bytes[position]? = some first) (inside : byteIn p first = true) :
    position < passWhile p bytes position := by
  obtain ⟨bound, same⟩ := List.getElem?_eq_some_iff.mp found
  rw [passWhile, List.drop_eq_getElem_cons bound, same, List.takeWhile_cons, if_pos inside,
    List.length_cons]
  omega

theorem fractionEnd_ge (bytes : Bytes) (whole : Nat) : whole ≤ fractionEnd bytes whole := by
  unfold fractionEnd
  split
  · exact Nat.le_trans (Nat.le_succ whole) (passWhile_ge _ _ _)
  · exact Nat.le_refl whole

theorem byteIn_mono {p q : Char → Bool} (wider : ∀ c, p c = true → q c = true) {byte : UInt8}
    (inside : byteIn p byte = true) : byteIn q byte = true := by
  rw [byteIn, Bool.and_eq_true] at inside ⊢
  exact ⟨inside.1, wider _ inside.2⟩

theorem isNamePart_of_isNameStart {c : Char} (start : isNameStart c = true) :
    isNamePart c = true := by
  simp only [isNameStart, isNamePart, Char.isAlphanum, Bool.or_eq_true] at start ⊢
  exact start.imp_left Or.inl

theorem tokenEnd?_gt {bytes : Bytes} {start stop : Nat} {first : UInt8} {kind : TokenKind}
    (found : bytes[start]? = some first)
    (ends : tokenEnd? bytes start first = some (kind, stop)) : start < stop := by
  unfold tokenEnd? at ends
  split at ends
  · cases ends
    exact Nat.lt_succ_self _
  · split at ends
    · cases ends
      exact Nat.lt_succ_self _
    · split at ends
      · rename_i digit
        cases ends
        exact Nat.lt_of_lt_of_le (passWhile_gt found digit) (fractionEnd_ge _ _)
      · split at ends
        · rename_i letter
          cases ends
          exact passWhile_gt found (byteIn_mono (fun _ => isNamePart_of_isNameStart) letter)
        · cases ends

theorem tokenFrom_gt {text : String} {start stop : Nat} {token : Token}
    (read : tokenFrom text start = .ok (some (token, stop))) :
    start < (utf8 text).length ∧ start < stop := by
  unfold tokenFrom at read
  split at read
  · cases read
  · rename_i first found
    have bound := (List.getElem?_eq_some_iff.mp found).1
    split at read
    · rename_i kind last ends
      obtain ⟨lexeme, -, read⟩ := within_bind_eq_ok.mp read
      cases read
      exact ⟨bound, tokenEnd?_gt found ends⟩
    · obtain ⟨rest, -, read⟩ := within_bind_eq_ok.mp read
      cases read

theorem nextToken_gt {text : String} {position stop : Nat} {token : Token}
    (read : nextToken text position = .ok (some (token, stop))) :
    position < (utf8 text).length ∧ position < stop := by
  have onward := passWhile_ge isSpace (utf8 text) position
  have further := tokenFrom_gt read
  omega

theorem parseTerm_gt {text : String} {position stop : Nat} {term : Term}
    (read : parseTerm text position = .ok (term, stop)) : position < stop := by
  unfold parseTerm at read
  split at read
  · cases read
  · cases read
  · rename_i token last found
    have further := (nextToken_gt found).2
    cases made : termOf token with
    | error fault =>
      rw [made] at read
      cases read
    | ok value =>
      rw [made] at read
      cases read
      exact further

def parseTerms (text : String) (read : List (Sign × Term)) (position : Nat) :
    Guarded Fault SignedSum :=
  match _ : nextToken text position with
  | .error fault => .error fault
  | .ok none => .ok ⟨read.reverse⟩
  | .ok (some (token, behind)) =>
      match readSign token with
      | .error fault => refused fault
      | .ok sign =>
          match _ : parseTerm text behind with
          | .error fault => .error fault
          | .ok (term, stop) => parseTerms text ((sign, term) :: read) stop
termination_by (utf8 text).length - position
decreasing_by
  have further := nextToken_gt ‹nextToken text position = _›
  have last := parseTerm_gt ‹parseTerm text behind = _›
  omega

def parseBytewise (formula : Formula) : Guarded Fault SignedSum :=
  if formula.text.isEmpty then refused .empty
  else do
    let (term, stop) ← parseTerm formula.text 0
    parseTerms formula.text [(.plus, term)] stop

end Formula
end EntityCatalog
