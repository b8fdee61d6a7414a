import EntityCatalog.Formula.Bytewise
import EntityCatalog.Proofs.Decimal.Bytewise
import EntityCatalog.Proofs.Formula.Grammar
import EntityCatalog.Proofs.Results

/- Reading the bytes of a formula. Every token is found where it stands among the characters, so no
   text is cut inside a character, and each fault that names a position names what begins there. -/
namespace EntityCatalog
open Timestamp (isAscii)

namespace Formula
open Guarded

theorem ascii_isSpace : AsciiClass isSpace := by
  intro c space
  have all : blankChars.all isAscii = true := by decide
  exact List.all_eq_true.mp all c (isSpace_iff.mp space)

theorem ascii_isNamePart : AsciiClass isNamePart := by
  intro c inside
  rcases isNamePart_iff.mp inside with either | rfl
  · rw [Char.isAlphanum, Bool.or_eq_true] at either
    rcases either with letter | digit
    · change (decide ('A'.val ≤ c.val ∧ c.val ≤ 'Z'.val) ||
        decide ('a'.val ≤ c.val) && decide (c.val ≤ 'z'.val)) = true at letter
      simp only [Bool.or_eq_true, Bool.and_eq_true, decide_eq_true_eq, UInt32.le_iff_toNat_le]
        at letter
      have bounds : 'Z'.val.toNat = 90 ∧ 'z'.val.toNat = 122 := by decide
      have word : c.val.toNat = c.toNat := rfl
      exact isAscii_iff.mpr (by omega)
    · exact ascii_isDigit c digit
  · decide

theorem ascii_isNameStart : AsciiClass isNameStart :=
  fun c start => ascii_isNamePart c (isNamePart_of_isNameStart start)

/-! ### Where a token ends -/

variable {text : String} {position start : Nat} {behind rest : List Char} {c : Char}

theorem fractionEnd_point (stands : StandsAt text start ('.' :: rest)) :
    fractionEnd (utf8 text) start =
      if rest.takeWhile Char.isDigit = [] then start
      else start + utf8Length ('.' :: rest.takeWhile Char.isDigit) := by
  have onward := stands.past_ascii (by decide)
  have point := (stands.byte_eq_iff (show isAscii '.' = true by decide)).mpr rfl
  have digit : rest.head?.any Char.isDigit = true ↔ ¬ rest.takeWhile Char.isDigit = [] := by
    cases rest with
    | nil => simp
    | cons d others => by_cases isDigit : d.isDigit = true <;> simp [isDigit]
  have length : utf8Length ('.' :: rest.takeWhile Char.isDigit) =
      1 + utf8Length (rest.takeWhile Char.isDigit) := utf8Length_append ['.'] _
  unfold fractionEnd
  simp only [point, true_and, onward.any_byteIn ascii_isDigit, digit, ite_not,
    onward.passWhile_eq ascii_isDigit, length, Nat.add_assoc]

theorem fractionEnd_other (stands : StandsAt text start behind)
    (no_point : behind.head? ≠ some '.') : fractionEnd (utf8 text) start = start := by
  have other := mt (stands.byte_eq_iff (show isAscii '.' = true by decide)).mp no_point
  rw [fractionEnd, if_neg fun both => other both.1]

theorem numberEnd_eq (stands : StandsAt text start behind) :
    numberEnd (utf8 text) start = start + utf8Length (numberLexeme behind) := by
  have split := List.takeWhile_append_dropWhile (p := Char.isDigit) (l := behind)
  have whole : StandsAt text (start + utf8Length (behind.takeWhile Char.isDigit))
      (behind.dropWhile Char.isDigit) := by
    rw [← split] at stands
    exact stands.past
  rw [numberEnd, stands.passWhile_eq ascii_isDigit]
  unfold numberLexeme
  simp only
  split
  · rename_i more same
    rw [same] at whole
    rw [fractionEnd_point whole]
    split
    · rfl
    · rw [utf8Length_append, Nat.add_assoc]
  · rename_i no_point
    apply fractionEnd_other whole
    intro point
    obtain ⟨more, same⟩ := List.head?_eq_some_iff.mp point
    exact no_point more same

theorem numberLexeme_prefix (chars : List Char) : ∃ rest, chars = numberLexeme chars ++ rest := by
  have split := List.takeWhile_append_dropWhile (p := Char.isDigit) (l := chars)
  unfold numberLexeme
  simp only
  split
  · rename_i more same
    have further := List.takeWhile_append_dropWhile (p := Char.isDigit) (l := more)
    rw [same] at split
    split
    · exact ⟨_, split.symm⟩
    · refine ⟨more.dropWhile Char.isDigit, ?_⟩
      rw [List.append_assoc, List.cons_append, further, split]
  · exact ⟨_, split.symm⟩

/-- The bytes and the characters tell the same token, and it stands at the front of the rest. -/
theorem firstToken_found {first : UInt8} (leads : Leads first c)
    (stands : StandsAt text start (c :: rest)) :
    (∃ kind lexeme behind, firstToken start c rest = ⟨kind, lexeme, start⟩ ∧
      (∀ d, kind ≠ .stray d) ∧ c :: rest = lexeme ++ behind ∧
      tokenEnd? (utf8 text) start first = some (kind, start + utf8Length lexeme)) ∨
    firstToken start c rest = ⟨.stray c, [c], start⟩ ∧
      tokenEnd? (utf8 text) start first = none := by
  have plus := leads.eq_iff (show isAscii '+' = true by decide)
  have minus := leads.eq_iff (show isAscii '-' = true by decide)
  unfold firstToken tokenEnd?
  simp only [plus, minus, leads.byteIn_eq ascii_isDigit, leads.byteIn_eq ascii_isNameStart,
    numberEnd_eq stands, stands.passWhile_eq ascii_isNamePart]
  split
  · rename_i same
    exact .inl ⟨.plus, [c], rest, rfl, by simp, rfl, by rw [same]; rfl⟩
  · split
    · rename_i same
      exact .inl ⟨.minus, [c], rest, rfl, by simp, rfl, by rw [same]; rfl⟩
    · split
      · obtain ⟨behind, parts⟩ := numberLexeme_prefix (c :: rest)
        exact .inl ⟨.number, _, behind, rfl, by simp, parts, rfl⟩
      · split
        · rename_i letter
          have taken := List.takeWhile_cons_of_pos (l := rest) (isNamePart_of_isNameStart letter)
          refine .inl ⟨.variable, _, rest.dropWhile isNamePart, rfl, by simp, ?_, by rw [taken]⟩
          rw [List.cons_append, List.takeWhile_append_dropWhile]
        · exact .inr ⟨rfl, rfl⟩

/-! ### The next token, by the tokens that the rest of the text has -/

structure Cut (text : String) (token : Token) (rest : List Char) : Prop where
  usual : ∀ c, token.kind ≠ .stray c
  some_char : token.lexeme ≠ []
  stands : StandsAt text token.position (token.lexeme ++ rest)

inductive Next (text : String) : List Token → Guarded Fault (Option (Token × Nat)) → Prop where
  | nothing : Next text [] (.ok none)
  | token {token : Token} {rest : List Char} (cut : Cut text token rest) :
      Next text (token :: tokensAfter [] (token.position + utf8Length token.lexeme) rest)
        (.ok (some (token, token.position + utf8Length token.lexeme)))
  | stray {start : Nat} {c : Char} {rest : List Char} (stands : StandsAt text start (c :: rest)) :
      Next text [⟨.stray c, [c], start⟩] (.error (some (.unexpectedCharacter start c)))

theorem tokenFrom_next (stands : StandsAt text start (c :: rest)) (visible : isSpace c = false) :
    Next text (tokensAfter [] start (c :: rest)) (tokenFrom text start) := by
  obtain ⟨first, found, leads⟩ := stands.exists_byte
  have some_char := List.length_pos_iff.mp (firstToken_lexeme_positive start c rest)
  rw [tokenFrom, found]
  rcases firstToken_found leads stands with
    ⟨kind, lexeme, behind, same, usual, parts, ends⟩ | ⟨stray, ends⟩
  · rw [tokensAfter_token visible same usual parts]
    rw [same] at some_char
    rw [parts] at stands
    simp only [ends, stands.sliceText?_eq, within_some_bind, String.toList_ofList]
    exact .token ⟨usual, some_char, stands⟩
  · rw [tokensAfter_stray visible stray]
    simp only [ends, stands.sliceText?_rest, within_some_bind, String.toList_ofList]
    exact .stray stands

theorem nextToken_next (stands : StandsAt text position behind) :
    Next text (tokensAfter [] position behind) (nextToken text position) := by
  have split := List.takeWhile_append_dropWhile (p := isSpace) (l := behind)
  have blank : Blanks (behind.takeWhile isSpace) :=
    fun c member => isSpace_iff.mp (all_takeWhile c member)
  have ascii : (behind.takeWhile isSpace).all isAscii = true :=
    List.all_eq_true.mpr fun c member => ascii_isSpace c (all_takeWhile c member)
  have visible := List.head?_dropWhile_not isSpace behind
  have passed := stands.passWhile_eq ascii_isSpace
  generalize behind.takeWhile isSpace = gap at split blank ascii passed
  generalize behind.dropWhile isSpace = rest at split visible
  subst split
  have onward := stands.past
  rw [nextToken, passed, tokensAfter_blanks blank, ← utf8Length_ascii ascii]
  cases rest with
  | nil =>
    rw [tokenFrom, onward.no_byte, tokensAfter]
    exact .nothing
  | cons c others => exact tokenFrom_next onward visible

section
variable {token : Token} {stop : Nat} {fault : Option Fault}

theorem nextToken_eq_token (stands : StandsAt text position behind)
    (found : nextToken text position = .ok (some (token, stop))) :
    ∃ rest, Cut text token rest ∧ StandsAt text stop rest ∧
      tokensAfter [] position behind = token :: tokensAfter [] stop rest := by
  have next := nextToken_next stands
  rw [found] at next
  generalize tokensAfter [] position behind = tokens at next
  cases next with
  | token cut => exact ⟨_, cut, cut.stands.past, rfl⟩

theorem nextToken_eq_none (stands : StandsAt text position behind)
    (ended : nextToken text position = .ok none) : tokensAfter [] position behind = [] := by
  have next := nextToken_next stands
  rw [ended] at next
  generalize tokensAfter [] position behind = tokens at next
  cases next
  rfl

theorem nextToken_eq_error (stands : StandsAt text position behind)
    (failed : nextToken text position = .error fault) :
    ∃ start c rest, fault = some (.unexpectedCharacter start c) ∧
      StandsAt text start (c :: rest) ∧
      tokensAfter [] position behind = [⟨.stray c, [c], start⟩] := by
  have next := nextToken_next stands
  rw [failed] at next
  generalize tokensAfter [] position behind = tokens at next
  cases next with
  | stray here => exact ⟨_, _, _, rfl, here, rfl⟩

end

/-! ### The same sum or fault as from the characters -/

theorem termOf_eq (token : Token) : termOf token = (readTerm token).mapError some := by
  unfold termOf readTerm
  rw [Decimal.parseBytewise_eq]
  cases token.kind with
  | number => cases Decimal.parse (String.ofList token.lexeme) <;> rfl
  | «variable» => rfl
  | plus => rfl
  | minus => rfl
  | stray c => rfl

inductive Operand (text : String) : List Token → Guarded Fault (Term × Nat) → Prop where
  | missing : Operand text [] (.error (some (.unexpectedEnd .term)))
  | fault {token : Token} {later : List Token} {fault : Fault}
      (failed : readTerm token = .error fault) : Operand text (token :: later) (.error (some fault))
  | term {token : Token} {term : Term} {stop : Nat} {rest : List Char}
      (made : readTerm token = .ok term) (stands : StandsAt text stop rest) :
      Operand text (token :: tokensAfter [] stop rest) (.ok (term, stop))

theorem parseTerm_operand (stands : StandsAt text position behind) :
    Operand text (tokensAfter [] position behind) (parseTerm text position) := by
  have next := nextToken_next stands
  rw [parseTerm]
  generalize tokensAfter [] position behind = tokens at next
  generalize nextToken text position = result at next
  cases next with
  | nothing => exact .missing
  | @token token rest cut =>
    simp only [termOf_eq]
    cases made : readTerm token with
    | error fault => exact .fault made
    | ok term => exact .term made cut.stands.past
  | stray stands => exact .fault rfl

theorem parseTerms_eq (read : List (Sign × Term)) (stands : StandsAt text position behind) :
    parseTerms text read position =
      (readTerms read (tokensAfter [] position behind)).mapError some := by
  fun_induction parseTerms text read position generalizing behind with
  | case1 read position fault failed =>
    obtain ⟨start, c, rest, rfl, -, split⟩ := nextToken_eq_error stands failed
    rw [split]
    rfl
  | case2 read position ended =>
    rw [nextToken_eq_none stands ended]
    rfl
  | case3 read position token stop found fault failed =>
    obtain ⟨rest, -, -, split⟩ := nextToken_eq_token stands found
    rw [split, readTerms_of_fault failed]
    rfl
  | case4 read position token stop found sign operator fault failed =>
    obtain ⟨rest, -, onward, split⟩ := nextToken_eq_token stands found
    have operand := parseTerm_operand onward
    rw [failed] at operand
    rw [split]
    generalize tokensAfter [] stop rest = later at operand
    cases operand with
    | missing =>
      simp only [readTerms, operator]
      rfl
    | fault made =>
      simp only [readTerms, operator, made]
      rfl
  | case5 read position token stop found sign operator term last made ih =>
    obtain ⟨rest, -, onward, split⟩ := nextToken_eq_token stands found
    have operand := parseTerm_operand onward
    rw [made] at operand
    rw [split]
    generalize tokensAfter [] stop rest = later at operand
    cases operand with
    | term made further =>
      simp only [readTerms, operator, made]
      exact ih further

theorem parseBytewise_eq (formula : Formula) :
    formula.parseBytewise = formula.parse.mapError some := by
  rw [parseBytewise, parse]
  split
  · rfl
  · have operand := parseTerm_operand (standsAt_start formula.text)
    rw [tokens]
    generalize tokensAfter [] 0 formula.text.toList = tokens at operand
    generalize parseTerm formula.text 0 = result at operand
    cases operand with
    | missing => rfl
    | fault failed =>
      simp only [failed]
      rfl
    | term made onward =>
      simp only [made]
      exact parseTerms_eq _ onward

/-! ### Faults name what stands in the text -/

/-- A character or a token that is named begins at the position named. A number that is named is
    written in the text, and what is wrong with it is true in it. -/
def Fault.TrueIn (text : String) : Fault → Prop
  | .unexpectedCharacter position found => ReadsAt text position [found]
  | .unexpectedToken position _ found => found ≠ "" ∧ ReadsAt text position found.toList
  | .invalidNumber literal source =>
      (∃ position, ReadsAt text position literal.toList) ∧ source.TrueIn literal
  | .empty => True
  | .unexpectedEnd _ => True
  | .unresolvedVariable _ => True
  | .overflow => True

section
variable {token : Token} (cut : Cut text token rest)
include cut

theorem Cut.reads_lexeme : ReadsAt text token.position (String.ofList token.lexeme).toList := by
  rw [String.toList_ofList]
  exact cut.stands.readsAt

theorem unexpected_true (expected : Expected) : (unexpected expected token).TrueIn text := by
  unfold unexpected
  split
  · rename_i c stray
    exact absurd stray (cut.usual c)
  · refine ⟨fun empty => cut.some_char ?_, cut.reads_lexeme⟩
    rwa [String.ofList_eq_empty_iff] at empty

theorem readSign_true {fault : Fault} (failed : readSign token = .error fault) :
    fault.TrueIn text := by
  unfold readSign at failed
  split at failed
  · cases failed
  · cases failed
  · cases failed
    exact unexpected_true cut _

theorem termOf_true : OnlyFaults (Fault.TrueIn text) (termOf token) := by
  unfold termOf
  rw [Decimal.parseBytewise_eq]
  split
  · cases read : Decimal.parse (String.ofList token.lexeme) with
    | ok value => trivial
    | error source => exact ⟨⟨_, cut.reads_lexeme⟩, Decimal.parse_fault_true read⟩
  · trivial
  · exact unexpected_true cut _

end

theorem parseTerm_true (stands : StandsAt text position behind) :
    OnlyFaults (Fault.TrueIn text) (parseTerm text position) := by
  have next := nextToken_next stands
  rw [parseTerm]
  generalize tokensAfter [] position behind = tokens at next
  generalize nextToken text position = result at next
  cases next with
  | nothing => trivial
  | token cut => exact onlyFaults_bind (termOf_true cut) fun _ _ => trivial
  | stray here => exact here.readsAt_first

theorem parseTerm_stands {term : Term} {stop : Nat} (stands : StandsAt text position behind)
    (read : parseTerm text position = .ok (term, stop)) : ∃ rest, StandsAt text stop rest := by
  unfold parseTerm at read
  split at read
  · cases read
  · cases read
  · rename_i token last found
    obtain ⟨made, -, same⟩ := bind_eq_ok.mp read
    cases same
    obtain ⟨rest, -, onward, -⟩ := nextToken_eq_token stands found
    exact ⟨rest, onward⟩

theorem parseTerms_true (read : List (Sign × Term)) (stands : StandsAt text position behind) :
    OnlyFaults (Fault.TrueIn text) (parseTerms text read position) := by
  -- Each turn of the loop begins where a character does.
  fun_induction parseTerms text read position generalizing behind with
  | case1 read position fault failed =>
    obtain ⟨start, c, rest, rfl, here, -⟩ := nextToken_eq_error stands failed
    exact here.readsAt_first
  | case2 => trivial
  | case3 read position token stop found fault failed =>
    obtain ⟨rest, cut, -, -⟩ := nextToken_eq_token stands found
    exact readSign_true cut failed
  | case4 read position token stop found sign operator fault failed =>
    obtain ⟨rest, -, onward, -⟩ := nextToken_eq_token stands found
    have operand := parseTerm_true onward
    rw [failed] at operand
    cases fault <;> exact operand
  | case5 read position token stop found sign operator term last operand ih =>
    obtain ⟨rest, -, onward, -⟩ := nextToken_eq_token stands found
    obtain ⟨others, further⟩ := parseTerm_stands onward operand
    exact ih further

theorem parseBytewise_true (formula : Formula) :
    OnlyFaults (Fault.TrueIn formula.text) formula.parseBytewise := by
  have stands := standsAt_start formula.text
  unfold parseBytewise
  split
  · trivial
  · refine onlyFaults_bind (parseTerm_true stands) fun found read => ?_
    obtain ⟨rest, onward⟩ := parseTerm_stands stands read
    exact parseTerms_true _ onward

/-- Neither reader cuts its text inside a character, and whatever position a fault names, what it
    says is found there begins there. -/
theorem positions_truthful (text : String) :
    OnlyFaults (Decimal.Fault.TrueIn text) (Decimal.parseBytewise text) ∧
      OnlyFaults (Fault.TrueIn text) (Formula.mk text).parseBytewise := by
  constructor
  · rw [Decimal.parseBytewise_eq]
    exact onlyFaults_mapError fun _ => Decimal.parse_fault_true
  · exact parseBytewise_true ⟨text⟩

example : Decimal.parseBytewise "1é" = .error (some (.invalidCharacter 1 'é')) := by rfl

example : nextToken "1 + é" 3 = .error (some (.unexpectedCharacter 4 'é')) := by rfl

end Formula
end EntityCatalog
