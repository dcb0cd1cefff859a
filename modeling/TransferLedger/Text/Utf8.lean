/-!
# Bytes of a text

The UTF-8 bytes of a text as a list.  Lengths of texts that are measured in bytes, and texts that
enter a hash, go through this one view, and it forgets nothing.
-/

set_option autoImplicit false

namespace TransferLedger.Text

def utf8 (s : String) : List UInt8 :=
  s.toByteArray.data.toList

theorem utf8_inj {s t : String} (h : utf8 s = utf8 t) : s = t := by
  apply String.toByteArray_inj.1
  have : s.toByteArray.data = t.toByteArray.data := Array.toList_inj.1 h
  exact ByteArray.ext this

end TransferLedger.Text
