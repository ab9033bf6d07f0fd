/-! What a pattern is read by: its flags, which hold from where they stand to the end of the group
around them, or for the group that they open. -/
namespace Outbox.Text.Pattern

structure Settings where
  /-- Upper and lower case are one. -/
  ignoresCase : Bool := false
  /-- A pattern is about characters, not about bytes. -/
  isUnicode : Bool := true
  /-- Blanks do not count, and a number sign starts a comment. -/
  isVerbose : Bool := false
  deriving DecidableEq, Repr

namespace Settings

def flags : List Char := "imsUuRx".toList

/-- The settings after flags: those before a minus sign are on, those behind it are off. -/
def apply (s : Settings) (written : List Char) : Settings :=
  let on := written.takeWhile (· != '-')
  let value (flag : Char) (current : Bool) : Bool :=
    if written.contains flag then on.contains flag else current
  ⟨value 'i' s.ignoresCase, value 'u' s.isUnicode, value 'x' s.isVerbose⟩

/-- Whether single characters may be named: where case does not matter, the cases of the letters of
all scripts would have to be known. -/
def admitsLetters (s : Settings) : Bool := !(s.ignoresCase && s.isUnicode)

/-- Whether a class of ASCII may be named, or the class of all other characters: of bytes the latter
would hold some that are no text. -/
def admitsClass (s : Settings) (isNegated : Bool) : Bool :=
  s.admitsLetters && (s.isUnicode || !isNegated)

/-- Whether a character may be in a set: a set of bytes holds ASCII only. -/
def admitsInSet (s : Settings) (c : Char) : Bool :=
  s.admitsLetters && (s.isUnicode || c.toNat < 0x80)

end Settings
end Outbox.Text.Pattern
