import DocTemplate.Outcome
import DocTemplate.Text.Utf8

/-!
# What a page is written to

A sink takes texts one after the other and may fail at any byte of one.  The
bytes before that byte have been taken all the same.
-/

namespace DocTemplate

/-- A sink; a failure is told in words. -/
class Sink (ω : Type) where
  write : ω → String → Outcome String ω

/-- A sink that takes everything. -/
structure Buffer where
  text : String := ""
deriving DecidableEq, Repr

instance : Sink Buffer := ⟨fun buffer text => ⟨⟨buffer.text ++ text⟩, none⟩⟩

/-- A sink with room for a limited number of bytes. -/
structure BoundedBuffer where
  limit : Nat
  bytes : List UInt8 := []
deriving DecidableEq, Repr

namespace BoundedBuffer

def room (buffer : BoundedBuffer) : Nat :=
  buffer.limit - buffer.bytes.length

def write (buffer : BoundedBuffer) (text : String) :
    Outcome String BoundedBuffer :=
  let bytes := Text.encode text
  let taken :=
    { buffer with bytes := buffer.bytes ++ bytes.take buffer.room }
  if bytes.length ≤ buffer.room then
    ⟨taken, none⟩
  else
    .fail taken "write limit reached"

instance : Sink BoundedBuffer := ⟨write⟩

end BoundedBuffer
end DocTemplate
