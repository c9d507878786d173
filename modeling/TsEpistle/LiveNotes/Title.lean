import TsEpistle.Library.JsString

/-! Keys, request ids and titles of live notes. The title is the first ATX heading of
level one, or else the first line that is not blank. -/

namespace TsEpistle.LiveNotes
open Library

def LIVE_NOTE_MAX_TEXT_BYTES : Nat := 1024 * 1024
def MAX_SAFE_INTEGER : Nat := 9007199254740991

def reservedKeys : List JsString :=
  [js "api", js "admin", js "auth", js "assets", js "new", js "create", js "session",
    js "sessions", js "revisions", js "updates", js "profile", js "login", js "logout"]

def isDigit (c : UInt16) : Bool := 48 ≤ c ∧ c ≤ 57
def isLower (c : UInt16) : Bool := 97 ≤ c ∧ c ≤ 122
def isUpper (c : UInt16) : Bool := 65 ≤ c ∧ c ≤ 90

/-- `/^[a-z0-9](?:[a-z0-9-]{1,62}[a-z0-9])$/u`, and not reserved. -/
def isLiveNoteKey (value : JsString) : Bool :=
  let edge := fun c => isLower c || isDigit c
  decide (3 ≤ value.length ∧ value.length ≤ 64) && value.all (fun c => edge c || c == 45)
    && value.head?.any edge && value.getLast?.any edge && !reservedKeys.contains value

/-- `/^[A-Za-z0-9_-]{1,128}$/u` -/
def isLiveNoteRequestId (value : JsString) : Bool :=
  decide (1 ≤ value.length ∧ value.length ≤ 128)
    && value.all fun c => isUpper c || isLower c || isDigit c || c == 95 || c == 45

/-- The UTF-8 bytes of a string, where a lone surrogate is written as U+FFFD. -/
def byteLength : JsString → Nat
  | [] => 0
  | [c] => if c < 0x80 then 1 else if c < 0x800 then 2 else 3
  | c :: d :: rest =>
    if 0xD800 ≤ c ∧ c < 0xDC00 ∧ 0xDC00 ≤ d ∧ d < 0xE000 then 4 + byteLength rest
    else (if c < 0x80 then 1 else if c < 0x800 then 2 else 3) + byteLength (d :: rest)

/-- `/\s/u` -/
def whitespace (c : UInt16) : Bool :=
  (9 ≤ c ∧ c ≤ 13) ∨ c = 32 ∨ c = 0xA0 ∨ c = 0x1680 ∨ (0x2000 ≤ c ∧ c ≤ 0x200A)
    ∨ c = 0x2028 ∨ c = 0x2029 ∨ c = 0x202F ∨ c = 0x205F ∨ c = 0x3000 ∨ c = 0xFEFF

def control (code : UInt16) : Bool := code < 32 ∨ code = 127

/-- What is left between the ends after `p` has been taken off on both sides. -/
def stripped (p : UInt16 → Bool) (text : JsString) : JsString :=
  ((text.dropWhile p).reverse.dropWhile p).reverse

/-- At most 200 code units, without the control characters. -/
def titleLabel (line : JsString) : JsString :=
  ((stripped (fun c => whitespace c || control c) line).filter fun c => !control c).take 200

def lineEnd (c : UInt16) : Bool := c = 10 ∨ c = 13 ∨ c = 0x2028 ∨ c = 0x2029

/-- Up to three spaces before the marker. -/
def afterIndent (line : JsString) : JsString :=
  line.drop (min 3 (line.takeWhile (· = 32)).length)

/-- Closing hashes go only where whitespace or nothing stands before them. -/
def withoutClosing (heading : JsString) : JsString :=
  let open' := (heading.reverse.dropWhile (· = 35)).reverse
  if open'.length < heading.length ∧ open'.getLast?.all whitespace then open' else heading

/-- The text of a line that is a heading of level one. -/
def headingText (line : JsString) : Option JsString :=
  match afterIndent line with
  | 35 :: c :: rest =>
    if c = 32 ∨ c = 9 then some (titleLabel (withoutClosing (stripped whitespace rest)))
    else none
  | _ => none

def noteTitleFrom (fallback : JsString) : List JsString → JsString
  | [] => fallback
  | line :: lines =>
    match headingText line with
    | some (c :: heading) => c :: heading
    | some [] | none =>
      noteTitleFrom (if fallback = [] then titleLabel line else fallback) lines

/-- A text that ends with a line break has no further line. -/
def linesOf (text : JsString) : List JsString :=
  let lines := text.splitOnP lineEnd
  if lines.getLast? = some [] then lines.dropLast else lines

def noteTitle (text : JsString) : JsString := noteTitleFrom [] (linesOf text)

example : noteTitle (js "intro\n  # Plan ##\n# Other") = js "Plan" := by decide

end TsEpistle.LiveNotes
