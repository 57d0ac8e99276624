import Saps.Files.Transaction
import Saps.Files.Yrs

namespace Saps.Files.TxUtils

open Utf8

-- The scan of `line_start_byte` from byte `index` on, after `seen` newlines.
def scanNewlines (line : Nat) : Str → Nat → Nat → Option Nat
  | [], _, _ => none
  | c :: text, index, seen =>
    if c = '\n' then
      if seen + 1 = line then some (index + c.utf8Size)
      else scanNewlines line text (index + c.utf8Size) (seen + 1)
    else scanNewlines line text (index + c.utf8Size) seen

def lineStartByte (text : Str) (line : Nat) : Nat :=
  if line = 0 then 0 else (scanNewlines line text 0 0).getD (byteLen text)

def advance (byte : Nat) (run : Str) : Nat :=
  run.foldl (fun byte c => byte + c.utf8Size) byte

def lineColToByte (text : Str) (position : CursorIndex) : UInt32 :=
  let lineStart := lineStartByte text position.line
  let byte := advance lineStart ((dropBytes lineStart text).take position.col)
  (min byte (byteLen text)).toUInt32

def byteSpan (text : Str) (position : CursorIndex) (charLength : Nat) : UInt32 × UInt32 :=
  let start := (lineColToByte text position).toNat
  let finish := advance start ((dropBytes start text).take charLength)
  (start.toUInt32, (finish - start).toUInt32)

variable {Doc : Type} [Yrs Doc]

def insertChar (contents : Str) (doc : Doc) (position : CursorIndex) (character : Char) : Doc :=
  Yrs.insert doc (lineColToByte contents position) [character]

def deleteChar (contents : Str) (doc : Doc) (position : CursorIndex) : Doc :=
  let (offset, length) := byteSpan contents position 1
  if 0 < length then Yrs.removeRange doc offset length else doc

def deleteRange (contents : Str) (doc : Doc) (position : CursorIndex) (delta : Nat) : Doc :=
  let (offset, removable) := byteSpan contents position delta
  if 0 < removable then Yrs.removeRange doc offset removable else doc

def insertText (contents : Str) (doc : Doc) (position : CursorIndex) (data : Str) : Doc :=
  Yrs.insert doc (lineColToByte contents position) data

end Saps.Files.TxUtils
