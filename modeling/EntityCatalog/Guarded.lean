import EntityCatalog.Text

/- Steps with bounds: parts of a text by the positions of its bytes, which begin and end between two
   characters or at an end of the text, and results of readers whose steps may leave their bounds. A
   step that leaves them gives neither a value nor a fault. -/
namespace EntityCatalog

/-! ### Parts of a text -/

/-- Bytes from 128 to 191 go on with a character that has begun before them. -/
def isBoundary (bytes : Bytes) (position : Nat) : Bool :=
  match bytes[position]? with
  | some byte => byte < 128 || 192 ≤ byte
  | none => position = bytes.length

/-- Nothing if a position is outside the text or inside a character, or if they are in the wrong
    order. -/
def slice? (bytes : Bytes) (start stop : Nat) : Option Bytes :=
  if start ≤ stop ∧ isBoundary bytes start ∧ isBoundary bytes stop then
    some ((bytes.take stop).drop start)
  else none

def sliceText? (text : String) (start stop : Nat) : Option String :=
  (slice? (utf8 text) start stop).bind ofUtf8?

def byteIn (p : Char → Bool) (byte : UInt8) : Bool := byte < 128 && p (Char.ofUInt8 byte)

/-- The first position, from the given one on, whose byte is not in the class. -/
def passWhile (p : Char → Bool) (bytes : Bytes) (position : Nat) : Nat :=
  position + ((bytes.drop position).takeWhile (byteIn p)).length

/-! ### Results -/

section
variable {ε α β : Type}

/-- The error without a fault stands for a step out of bounds. -/
abbrev Guarded (ε α : Type) := Except (Option ε) α

namespace Guarded

def refused (fault : ε) : Guarded ε α := .error (some fault)

def within : Option α → Guarded ε α
  | some value => .ok value
  | none => .error none

def orRefused (fault : ε) : Option α → Guarded ε α
  | some value => .ok value
  | none => refused fault

@[simp] theorem within_some_bind (value : α) (next : α → Guarded ε β) :
    within (some value) >>= next = next value := rfl

theorem within_bind_eq_ok {found : Option α} {next : α → Guarded ε β} {result : β} :
    within found >>= next = .ok result ↔ ∃ value, found = some value ∧ next value = .ok result := by
  cases found with
  | none =>
    constructor
    · intro out
      cases out
    · rintro ⟨value, there, -⟩
      cases there
  | some value => simp

@[simp] theorem orRefused_some_bind (fault : ε) (value : α) (next : α → Guarded ε β) :
    orRefused fault (some value) >>= next = next value := rfl

theorem orRefused_bind (fault : ε) (found : Option α) (next : α → Option β) :
    orRefused fault (found.bind next) =
      orRefused fault found >>= fun value => orRefused fault (next value) := by
  cases found <;> rfl

/-- The steps stay within their bounds, and a text is refused with no other faults than these. -/
def OnlyFaults (allowed : ε → Prop) : Guarded ε α → Prop
  | .ok _ => True
  | .error none => False
  | .error (some fault) => allowed fault

theorem onlyFaults_bind {allowed : ε → Prop} {result : Guarded ε α} {next : α → Guarded ε β}
    (first : OnlyFaults allowed result)
    (later : ∀ value, result = .ok value → OnlyFaults allowed (next value)) :
    OnlyFaults allowed (result >>= next) := by
  cases result with
  | ok value => exact later value rfl
  | error fault => cases fault <;> exact first

theorem onlyFaults_mapError {allowed : ε → Prop} {result : Except ε α}
    (each : ∀ fault, result = .error fault → allowed fault) :
    OnlyFaults allowed (result.mapError some) := by
  cases result with
  | ok value => trivial
  | error fault => exact each fault rfl

end Guarded

end

end EntityCatalog
