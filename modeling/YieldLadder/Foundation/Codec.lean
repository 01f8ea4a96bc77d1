import Mathlib.Data.List.Basic

/-! # Encodings that can be read back

A codec writes values of a type as values of another and reads them back; not everything that can
be read has been written by it. An argument list is written one argument after the other.
-/
namespace Foundation
variable {V W α β : Type}

structure Codec (W α : Type) where
  encode : α → W
  decode : W → Option α
  decode_encode : ∀ a, decode (encode a) = some a

namespace Codec

/-- No arguments at all. -/
def none : Codec (List W) Unit where
  encode _ := []
  decode
    | [] => some ()
    | _ :: _ => Option.none
  decode_encode _ := rfl

/-- An argument and the ones that follow it. -/
def cons (c : Codec W α) (d : Codec (List W) β) : Codec (List W) (α × β) where
  encode a := c.encode a.1 :: d.encode a.2
  decode
    | [] => Option.none
    | w :: ws => do
      let a ← c.decode w
      let b ← d.decode ws
      pure (a, b)
  decode_encode a := by
    simp only [c.decode_encode, d.decode_encode, Option.bind_eq_bind, Option.bind_some, Option.pure_def]

/-- A list, each of whose entries is written by the codec. -/
def list (c : Codec W α) : Codec (List W) (List α) where
  encode l := l.map c.encode
  decode ws := ws.mapM c.decode
  decode_encode l := by
    induction l with
    | nil => rfl
    | cons a l ih =>
      rw [List.map_cons, List.mapM_cons, c.decode_encode, ih]
      rfl

def comp (c : Codec W V) (d : Codec V α) : Codec W α where
  encode a := c.encode (d.encode a)
  decode w := (c.decode w).bind d.decode
  decode_encode a := by rw [c.decode_encode, Option.bind_some, d.decode_encode]

end Codec
end Foundation
