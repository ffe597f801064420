set_option autoImplicit false

namespace Wireform.Text

def byteCount : List Char → Nat
  | [] => 0
  | c :: cs => c.utf8Size + byteCount cs

theorem length_le_byteCount (cs : List Char) : cs.length ≤ byteCount cs := by
  induction cs with
  | nil => exact Nat.le_refl 0
  | cons c cs ih =>
    have h : 1 ≤ c.utf8Size := Char.utf8Size_pos c
    rw [List.length_cons, byteCount]
    omega

end Wireform.Text
