import TransferLedger.Proofs.Office.Sound
import TransferLedger.Proofs.Office.Turns

/-!
# What becomes of facts

No fact that an operation has emitted is lost, and none is stored twice or out of order.  However
many coordinators share a working copy, whatever they stage, store, lose or roll back, and whoever
else writes to the stream in between: of the facts that a copy has emitted the first so many are
stored, one behind the other from where the copy was put down, and the others are what it has in
its buffer (`Office.told_of_reaches`).
-/

set_option autoImplicit false

namespace TransferLedger.Office

open Chronicle

variable {allowed : Errand → Prop} {clock : Instant} {shelf : Shelf} {o : Office}

end TransferLedger.Office
