import Outbox.Json.Reader

/-! What is wrong with a text that is no JSON document, and where: the line, counted from one, and
how many bytes of it are read. -/
namespace Outbox.Json

/-- Something wrong in a text: the words for it, what of the text is still to be read, and how many
bytes of that belong before the place all the same. -/
structure Fault where
  words : String
  rest : List Char
  extra : Nat := 0

namespace Fault

open Reader (skipBlanks shortEscape? isHighSurrogate isLowSurrogate)

/-- A fault that shows once the next byte is read. -/
def onNext (words : String) (rest : List Char) : Fault := ⟨words, rest, 1⟩

def before (f : Fault) (text : String) : List UInt8 :=
  text.toUTF8.toList.take (text.utf8ByteSize - (String.ofList f.rest).utf8ByteSize + f.extra)

def message (f : Fault) (text : String) : String :=
  let read := f.before text
  let line := read.count 10 + 1
  let column := (read.reverse.takeWhile (· != 10)).length
  s!"{f.words} at line {line} column {column}"

def endInValue : String := "EOF while parsing a value"
def endInList : String := "EOF while parsing a list"
def endInObject : String := "EOF while parsing an object"
def endInText : String := "EOF while parsing a string"
def invalidNumber : String := "invalid number"
def numberTooLarge : String := "number out of range"
def invalidEscape : String := "invalid escape"
def loneSurrogate : String := "lone leading surrogate in hex escape"
def brokenPair : String := "unexpected end of hex escape"
def controlCharacter : String :=
  "control character (\\u0000-\\u001F) found while parsing a string"
def noValue : String := "expected value"
def noWord : String := "expected ident"
def noColon : String := "expected `:`"
def noListEnd : String := "expected `,` or `]`"
def noObjectEnd : String := "expected `,` or `\x7d`"
def keyNoText : String := "key must be a string"
def trailingComma : String := "trailing comma"
def trailingCharacters : String := "trailing characters"

def word : List Char → List Char → Except Fault (List Char)
  | [], cs => .ok cs
  | _ :: _, [] => .error ⟨endInValue, [], 0⟩
  | l :: ls, c :: cs => if c = l then word ls cs else .error (onNext noWord (c :: cs))

/-- What is wrong with a hexadecimal escape of less than four characters: they may be four bytes all
the same. -/
def shortEscape (cs : List Char) : Fault :=
  if (String.ofList cs).utf8ByteSize < 4 then ⟨endInText, [], 0⟩ else ⟨invalidEscape, cs, 4⟩

/-- Goes over a text up to and with its closing quote. Where the characters of the text are wanted,
no half of a surrogate pair may stand alone. -/
def text (wanted : Bool) : List Char → Except Fault (List Char)
  | [] => .error ⟨endInText, [], 0⟩
  | '"' :: rest => .ok rest
  | '\\' :: 'u' :: a :: b :: c :: d :: rest =>
    match Text.ofHexDigits? [a, b, c, d] with
    | none => .error ⟨invalidEscape, a :: b :: c :: d :: rest, 4⟩
    | some n =>
      if wanted && isLowSurrogate n then .error ⟨loneSurrogate, rest, 0⟩
      else if wanted && isHighSurrogate n then
        match rest with
        | [] => .error ⟨endInText, [], 0⟩
        | ['\\'] => .error ⟨endInText, [], 0⟩
        | '\\' :: 'u' :: e :: f :: g :: h :: rest =>
          match Text.ofHexDigits? [e, f, g, h] with
          | none => .error ⟨invalidEscape, e :: f :: g :: h :: rest, 4⟩
          | some m => if isLowSurrogate m then text wanted rest else .error ⟨loneSurrogate, rest, 0⟩
        | '\\' :: 'u' :: rest => .error (shortEscape rest)
        | '\\' :: rest => .error (onNext brokenPair rest)
        | rest => .error (onNext brokenPair rest)
      else text wanted rest
  | '\\' :: 'u' :: rest => .error (shortEscape rest)
  | ['\\'] => .error ⟨endInText, [], 0⟩
  | '\\' :: c :: rest =>
    if (shortEscape? c).isSome then text wanted rest else .error (onNext invalidEscape (c :: rest))
  | c :: rest =>
    if c.toNat < 0x20 then .error ⟨controlCharacter, c :: rest, if wanted then 1 else 0⟩
    else text wanted rest

def digits (wanted : Bool) : List Char → Except Fault (List Char)
  | [] => .error ⟨if wanted then endInValue else invalidNumber, [], 0⟩
  | c :: rest =>
    if c.isDigit then .ok (rest.dropWhile Char.isDigit)
    else .error (onNext invalidNumber (c :: rest))

def whole (wanted : Bool) : List Char → Except Fault (List Char)
  | '0' :: c :: rest =>
    if c.isDigit then .error (onNext invalidNumber (c :: rest)) else .ok (c :: rest)
  | cs => digits wanted cs

def fraction (wanted : Bool) : List Char → Except Fault (List Char)
  | '.' :: rest => digits wanted rest
  | cs => .ok cs

def exponent (wanted : Bool) : List Char → Except Fault (List Char)
  | [] => .ok []
  | c :: rest =>
    if c = 'e' ∨ c = 'E' then
      match rest with
      | '+' :: r => digits wanted r
      | '-' :: r => digits wanted r
      | r => digits wanted r
    else .ok (c :: rest)

def number (wanted : Bool) (cs : List Char) : Except Fault (List Char) :=
  match whole wanted cs with
  | .error f => .error f
  | .ok cs =>
    match fraction wanted cs with
    | .error f => .error f
    | .ok cs => exponent wanted cs

def colon (cs : List Char) : Except Fault (List Char) :=
  match skipBlanks cs with
  | [] => .error ⟨endInObject, [], 0⟩
  | ':' :: r => .ok r
  | r => .error (onNext noColon r)

mutual
/-- Goes over a document that is not wanted; the first argument bounds the depth of calls. -/
def value : Nat → List Char → Except Fault (List Char)
  | 0, cs => .error ⟨noValue, cs, 0⟩
  | n + 1, cs =>
    match skipBlanks cs with
    | [] => .error ⟨endInValue, [], 0⟩
    | 'n' :: r => word "ull".toList r
    | 't' :: r => word "rue".toList r
    | 'f' :: r => word "alse".toList r
    | '"' :: r => text false r
    | '-' :: r => number false r
    | '[' :: r =>
      match skipBlanks r with
      | [] => .error ⟨endInList, [], 0⟩
      | ']' :: r => .ok r
      | r => items n r
    | '\x7b' :: r =>
      match skipBlanks r with
      | [] => .error ⟨endInObject, [], 0⟩
      | '\x7d' :: r => .ok r
      | r => members n r
    | c :: r => if c.isDigit then number false (c :: r) else .error (onNext noValue (c :: r))

def items : Nat → List Char → Except Fault (List Char)
  | 0, cs => .error ⟨noValue, cs, 0⟩
  | n + 1, cs =>
    match value n cs with
    | .error f => .error f
    | .ok r =>
      match skipBlanks r with
      | [] => .error ⟨endInList, [], 0⟩
      | ']' :: r => .ok r
      | ',' :: r => items n r
      | r => .error (onNext noListEnd r)

def members : Nat → List Char → Except Fault (List Char)
  | 0, cs => .error ⟨noValue, cs, 0⟩
  | n + 1, cs =>
    match skipBlanks cs with
    | [] => .error ⟨endInObject, [], 0⟩
    | '"' :: r =>
      match text false r with
      | .error f => .error f
      | .ok r =>
        match colon r with
        | .error f => .error f
        | .ok r =>
          match value n r with
          | .error f => .error f
          | .ok r =>
            match skipBlanks r with
            | [] => .error ⟨endInObject, [], 0⟩
            | '\x7d' :: r => .ok r
            | ',' :: r => members n r
            | r => .error (onNext noObjectEnd r)
    | r => .error (onNext keyNoText r)
end

def finish (cs : List Char) : Except Fault Unit :=
  match skipBlanks cs with
  | [] => .ok ()
  | r => .error (onNext trailingCharacters r)

end Fault
end Outbox.Json
