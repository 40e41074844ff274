/-!
The order of texts by code point, which is also the order of their UTF-8 bytes.
-/

namespace PxdStub.Text

def le : List Char → List Char → Bool
  | [], _ => true
  | _ :: _, [] => false
  | a :: left, b :: right => if a = b then le left right else a.toNat ≤ b.toNat

end PxdStub.Text
