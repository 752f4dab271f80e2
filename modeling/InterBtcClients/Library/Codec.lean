import Mathlib.Data.Nat.Notation

/-! Encoders into bytes with their decoders, which leave the bytes that follow. -/

namespace InterBtcClients.Library

structure Codec (E A : Type) where
  encode : A → List UInt8
  decode : List UInt8 → Except E (A × List UInt8)

namespace Codec

variable {E A B : Type}

/-- The decoder gives `a` back, whatever follows its bytes. -/
def Reads (codec : Codec E A) (a : A) : Prop :=
  ∀ rest, codec.decode (codec.encode a ++ rest) = .ok (a, rest)

/-- The value that the bytes start with. -/
def read (codec : Codec E A) (bytes : List UInt8) : Except E A := do
  let (a, _) ← codec.decode bytes
  return a

/-- One value after the other. -/
def pair (first : Codec E A) (second : Codec E B) : Codec E (A × B) where
  encode p := first.encode p.1 ++ second.encode p.2
  decode bytes := do
    let (a, bytes) ← first.decode bytes
    let (b, bytes) ← second.decode bytes
    return ((a, b), bytes)

/-- A value that is made of what `codec` decodes. -/
def imap (codec : Codec E A) (make : A → B) (fields : B → A) : Codec E B where
  encode b := codec.encode (fields b)
  decode bytes := do
    let (a, bytes) ← codec.decode bytes
    return (make a, bytes)

theorem Reads.read_encode {codec : Codec E A} {a : A} (h : codec.Reads a) :
    codec.read (codec.encode a) = .ok a := by
  have hdecode := h []
  rw [List.append_nil] at hdecode
  rw [read, hdecode]
  rfl

theorem Reads.pair {first : Codec E A} {second : Codec E B} {a : A} {b : B} (ha : first.Reads a)
    (hb : second.Reads b) : (first.pair second).Reads (a, b) := by
  intro rest
  have hfirst := ha (second.encode b ++ rest)
  have hsecond := hb rest
  simp only [Codec.pair, List.append_assoc, hfirst, hsecond, bind, Except.bind]
  rfl

theorem Reads.imap {codec : Codec E A} {make : A → B} {fields : B → A} {b : B}
    (h : codec.Reads (fields b)) (hmake : make (fields b) = b) :
    (codec.imap make fields).Reads b := by
  intro rest
  have hdecode := h rest
  simp only [Codec.imap, hdecode, bind, Except.bind, hmake]
  rfl

end Codec

end InterBtcClients.Library
