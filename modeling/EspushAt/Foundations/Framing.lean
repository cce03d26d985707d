import Mathlib.Data.List.Basic

/-!
# Streams of self-delimiting frames

A frame format is an encoder together with a decoder that takes one frame off the
front of a stream. When the decoder undoes the encoder in front of any rest, it
also recovers a whole sequence of frames from their concatenation.
-/

namespace Framing

variable {α β : Type*}

/-- Take frames off a stream until it is empty, at most `fuel` of them. -/
def decodeAll (decode : List β → Option (α × List β)) : Nat → List β → Option (List α)
  | _, [] => some []
  | 0, _ :: _ => none
  | fuel + 1, b :: stream =>
      match decode (b :: stream) with
      | none => none
      | some (x, rest) => (decodeAll decode fuel rest).map (x :: ·)

/-- Decode a stream of nonempty frames; its length is fuel enough. -/
def decodeStream (decode : List β → Option (α × List β)) (stream : List β) : Option (List α) :=
  decodeAll decode stream.length stream

variable {encode : α → List β} {decode : List β → Option (α × List β)}

theorem decodeAll_flatMap {xs : List α} (hne : ∀ x ∈ xs, encode x ≠ [])
    (hdecode : ∀ x ∈ xs, ∀ rest, decode (encode x ++ rest) = some (x, rest)) {fuel : Nat}
    (hfuel : (xs.flatMap encode).length ≤ fuel) :
    decodeAll decode fuel (xs.flatMap encode) = some xs := by
  induction xs generalizing fuel with
  | nil => cases fuel <;> rfl
  | cons x xs ih =>
      obtain ⟨b, bs, hx⟩ := List.exists_cons_of_ne_nil (hne x (by simp))
      have hfront := hdecode x (by simp) (xs.flatMap encode)
      simp only [List.flatMap_cons, hx, List.cons_append, List.length_cons,
        List.length_append] at hfuel hfront ⊢
      cases fuel with
      | zero => omega
      | succ fuel =>
          rw [decodeAll, hfront]
          have hrest : decodeAll decode fuel (xs.flatMap encode) = some xs :=
            ih (fun y hy => hne y (by simp [hy])) (fun y hy => hdecode y (by simp [hy])) (by omega)
          simp [hrest]

/-- A stream of frames decodes to exactly the sequence that was framed. -/
theorem decodeStream_flatMap {xs : List α} (hne : ∀ x ∈ xs, encode x ≠ [])
    (hdecode : ∀ x ∈ xs, ∀ rest, decode (encode x ++ rest) = some (x, rest)) :
    decodeStream decode (xs.flatMap encode) = some xs :=
  decodeAll_flatMap hne hdecode (Nat.le_refl _)

end Framing
