import TsEpistle.Library.JsString

/-! Markdown sources of line patches (`server/agents/patch/wiki-line-patch.ts`): what a source is
validated for, its lines and its line ending. -/

namespace TsEpistle.LinePatch
open Library

structure WikiLinePatchError where
  (code message : String)
  status : Nat
  deriving DecidableEq, Repr

def maxSourceBytes : Nat := 1024 * 1024
def maxSourceLines : Nat := 20000
def maxDisclosedLines : Nat := 5000

/-! ## Characters -/

def isHighSurrogate (unit : UInt16) : Bool := 0xd800 ≤ unit && unit ≤ 0xdbff
def isLowSurrogate (unit : UInt16) : Bool := 0xdc00 ≤ unit && unit ≤ 0xdfff

def loneSurrogate (label kind : String) : WikiLinePatchError :=
  ⟨"INVALID_UTF16", label ++ " contains a lone " ++ kind ++ " surrogate", 400⟩

def assertValidUtf16 (label : String) : JsString → Except WikiLinePatchError Unit
  | [] => .ok ()
  | [unit] =>
    if isHighSurrogate unit then .error (loneSurrogate label "high")
    else if isLowSurrogate unit then .error (loneSurrogate label "low")
    else .ok ()
  | unit :: next :: rest =>
    if isHighSurrogate unit then
      if isLowSurrogate next then assertValidUtf16 label rest
      else .error (loneSurrogate label "high")
    else if isLowSurrogate unit then .error (loneSurrogate label "low")
    else assertValidUtf16 label (next :: rest)

def codePoints : JsString → List Nat
  | [] => []
  | [unit] => [unit.toNat]
  | unit :: next :: rest =>
    if isHighSurrogate unit && isLowSurrogate next then
      (0x10000 + (unit.toNat - 0xd800) * 0x400 + (next.toNat - 0xdc00)) :: codePoints rest
    else unit.toNat :: codePoints (next :: rest)

def utf8Bytes (codePoint : Nat) : List UInt8 :=
  if codePoint < 0x80 then [codePoint.toUInt8]
  else if codePoint < 0x800 then
    [(0xc0 + codePoint / 0x40).toUInt8, (0x80 + codePoint % 0x40).toUInt8]
  else if codePoint < 0x10000 then
    [(0xe0 + codePoint / 0x1000).toUInt8, (0x80 + codePoint / 0x40 % 0x40).toUInt8, (0x80 + codePoint % 0x40).toUInt8]
  else
    [(0xf0 + codePoint / 0x40000).toUInt8, (0x80 + codePoint / 0x1000 % 0x40).toUInt8,
      (0x80 + codePoint / 0x40 % 0x40).toUInt8, (0x80 + codePoint % 0x40).toUInt8]

/-- `Buffer.from(text, 'utf8')`. -/
def utf8 (text : JsString) : List UInt8 := (codePoints text).flatMap utf8Bytes

inductive Source
  | text (text : JsString)
  | bytes (bytes : ByteArray)

def invalidUtf8 : WikiLinePatchError :=
  ⟨"INVALID_UTF8", "Markdown source is not valid UTF-8", 400⟩

def notRoundTrip : WikiLinePatchError :=
  ⟨"INVALID_UTF8", "Markdown source does not round-trip as UTF-8", 400⟩

/-- `decodeSource`: the text and its bytes. The decoder drops a byte order mark, which a text does
not survive. -/
def decodeSource : Source → Except WikiLinePatchError (JsString × List UInt8)
  | .text text => do
      assertValidUtf16 "Markdown source" text
      if text.head? = some 0xfeff then .error notRoundTrip else return (text, utf8 text)
  | .bytes bytes =>
    match String.fromUTF8? bytes with
    | none => .error invalidUtf8
    | some decoded => do
        let text := if (js decoded).head? = some 0xfeff then (js decoded).tail else js decoded
        assertValidUtf16 "Markdown source" text
        return (text, bytes.toList)

/-! ## Warnings -/

inductive WarningReason
  | lineSeparator
  | bidiControl
  | defaultIgnorable
  deriving DecidableEq, Repr

structure WikiSourceWarning where
  (line column : Nat)
  codePoint : String
  reason : WarningReason
  deriving DecidableEq, Repr

def warningReason (c : Nat) : Option WarningReason :=
  if c = 0x85 || c = 0x2028 || c = 0x2029 then some .lineSeparator
  else if (0x202a ≤ c && c ≤ 0x202e) || (0x2066 ≤ c && c ≤ 0x2069) || c = 0x200e || c = 0x200f
      || c = 0x061c then some .bidiControl
  else if c = 0x00ad || c = 0x034f || c = 0x061c || c = 0xfeff || (0x180b ≤ c && c ≤ 0x180f)
      || (0x200b ≤ c && c ≤ 0x200f) || (0x202a ≤ c && c ≤ 0x202e) || (0x2060 ≤ c && c ≤ 0x206f)
      || (0xfe00 ≤ c && c ≤ 0xfe0f) || (0xe0100 ≤ c && c ≤ 0xe01ef) then some .defaultIgnorable
  else none

/-- `U+` and at least four hexadecimal digits. -/
def codePointName (c : Nat) : String :=
  let digits := (Nat.toDigits 16 c).map Char.toUpper
  "U+" ++ String.ofList (List.replicate (4 - digits.length) '0' ++ digits)

def warningsFrom : Nat → Nat → List Nat → List WikiSourceWarning
  | _, _, [] => []
  | line, column, c :: rest =>
    if c = 10 then warningsFrom (line + 1) 1 rest
    else if c = 13 then warningsFrom line column rest
    else
      ((warningReason c).map fun reason => ⟨line, column, codePointName c, reason⟩).toList
        ++ warningsFrom line (column + 1) rest

def sourceWarnings (text : JsString) : List WikiSourceWarning := warningsFrom 1 1 (codePoints text)

/-! ## Lines -/

inductive LineEnding
  | lf
  | crlf
  deriving DecidableEq, Repr

def crOutsideCrlf : WikiLinePatchError :=
  ⟨"MIXED_LINE_ENDINGS", "Markdown source contains CR outside CRLF", 400⟩

def mixesLfAndCrlf : WikiLinePatchError :=
  ⟨"MIXED_LINE_ENDINGS", "Markdown source mixes LF and CRLF", 400⟩

/-- Every CR stands before LF and every LF behind CR. -/
def checkCrlf : Option UInt16 → JsString → Except WikiLinePatchError Unit
  | _, [] => .ok ()
  | previous, unit :: rest =>
    if unit = 13 && rest.head? ≠ some 10 then .error crOutsideCrlf
    else if unit = 10 && previous ≠ some 13 then .error mixesLfAndCrlf
    else checkCrlf (some unit) rest

def sourceLineEnding (text : JsString) : Except WikiLinePatchError LineEnding :=
  if text.contains 13 then (checkCrlf none text).map fun _ => .crlf else .ok .lf

/-- `replaceAll('\r\n', '\n')`. -/
def unixLines : JsString → JsString
  | [] => []
  | [unit] => [unit]
  | unit :: next :: rest =>
    if unit = 13 && next = 10 then 10 :: unixLines rest else unit :: unixLines (next :: rest)

/-- `replaceAll('\n', '\r\n')`. -/
def windowsLines (text : JsString) : JsString :=
  text.flatMap fun unit => if unit = 10 then [13, 10] else [unit]

def canonicalTextOf (lineEnding : LineEnding) (text : JsString) : JsString :=
  match lineEnding with
  | .crlf => unixLines text
  | .lf => text

def endsWithNewline (canonicalText : JsString) : Bool := canonicalText.getLast? = some 10

/-- `split('\n')`, without what follows a final newline; an empty text has no lines. -/
def linesOf (canonicalText : JsString) : List JsString :=
  let lines := if canonicalText = [] then [] else canonicalText.splitOn 10
  if endsWithNewline canonicalText then lines.dropLast else lines

/-- `join('\n')`. -/
def joinLines (lines : List JsString) : JsString := [10].intercalate lines

structure ValidatedWikiMarkdownSource where
  text : JsString
  bytes : List UInt8
  canonicalText : JsString
  canonicalBytes : List UInt8
  lines : List JsString
  lineEnding : LineEnding
  finalNewline : Bool
  (rawSha256 canonicalSha256 documentTag : JsString)
  warnings : List WikiSourceWarning
  deriving DecidableEq, Repr

def sourceTooLarge : WikiLinePatchError :=
  ⟨"SOURCE_TOO_LARGE", "Markdown source exceeds one MiB", 400⟩

def sourceContainsNul : WikiLinePatchError :=
  ⟨"SOURCE_CONTAINS_NUL", "Markdown source contains NUL", 400⟩

def sourceTooManyLines : WikiLinePatchError :=
  ⟨"SOURCE_TOO_MANY_LINES", "Markdown source exceeds its line limit", 400⟩

section
variable (sha256 : List UInt8 → JsString)

def validatedSource (text : JsString) (bytes : List UInt8) (lineEnding : LineEnding) :
    ValidatedWikiMarkdownSource :=
  let canonicalText := canonicalTextOf lineEnding text
  let canonicalSha256 := sha256 (utf8 canonicalText)
  { text
    bytes
    canonicalText
    canonicalBytes := utf8 canonicalText
    lines := linesOf canonicalText
    lineEnding
    finalNewline := endsWithNewline canonicalText
    rawSha256 := sha256 bytes
    canonicalSha256
    documentTag := canonicalSha256.take 12
    warnings := sourceWarnings text }

def validateWikiMarkdownSource (source : Source) :
    Except WikiLinePatchError ValidatedWikiMarkdownSource := do
  let (text, bytes) ← decodeSource source
  if maxSourceBytes < bytes.length then .error sourceTooLarge
  else if text.contains 0 then .error sourceContainsNul
  else do
    let lineEnding ← sourceLineEnding text
    let source := validatedSource sha256 text bytes lineEnding
    if maxSourceLines < source.lines.length then .error sourceTooManyLines else return source

end

end TsEpistle.LinePatch
