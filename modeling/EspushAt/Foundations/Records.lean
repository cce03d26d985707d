import EspushAt.Foundations.Framing
import EspushAt.Foundations.Words

/-!
# Tagged records

A record is a tag of fixed length, the length of its data as a little-endian number, and
the data. What a decoder accepts is exactly what the encoder writes of records whose data
fits the number, so a sequence of records is read back when, and only when, all of it does.
-/

namespace Records

open CString Framing Words

structure Entry where
  tag : Bytes
  data : Bytes
  deriving DecidableEq

/-- A record with a length of `l` bytes; of a longer length only the low bytes are written. -/
def encode (l : Nat) (e : Entry) : Bytes := e.tag ++ littleEndian l e.data.length ++ e.data

/-- The tag has `k` bytes and the length of the data fits `l` bytes. -/
structure Fits (k l : Nat) (e : Entry) : Prop where
  tag : e.tag.length = k
  data : e.data.length < 256 ^ l

/-- Take a record off a stream. -/
def decode (k l : Nat) (stream : Bytes) : Option (Entry × Bytes) := do
  let (tag, stream) ← readBytes k stream
  let (n, stream) ← readWord l stream
  let (data, stream) ← readBytes n stream
  return (⟨tag, data⟩, stream)

/-- Take a number of records off a stream. -/
def decodeN (k l : Nat) : Nat → Bytes → Option (List Entry × Bytes)
  | 0, stream => some ([], stream)
  | n + 1, stream => do
      let (e, stream) ← decode k l stream
      let (es, stream) ← decodeN k l n stream
      return (e :: es, stream)

variable {k l : Nat} {e : Entry} {es : List Entry} {stream rest : Bytes}

/-- The decoder accepts what the encoder writes of a record that fits, and nothing else. -/
theorem decode_eq_some_iff :
    decode k l stream = some (e, rest) ↔ Fits k l e ∧ stream = encode l e ++ rest := by
  simp only [decode, Option.bind_eq_bind, Option.bind_eq_some_iff, Prod.exists,
    readBytes_eq_some_iff, readWord_eq_some_iff, Option.pure_def, Option.some.injEq]
  constructor
  · rintro ⟨tag, _, ⟨htag, rfl⟩, n, _, ⟨hn, rfl⟩, data, _, ⟨rfl, rfl⟩, heq⟩
    obtain ⟨rfl, rfl⟩ := Prod.mk.inj heq
    exact ⟨⟨htag, hn⟩, by simp [encode]⟩
  · rintro ⟨⟨htag, hdata⟩, rfl⟩
    exact ⟨e.tag, _, ⟨htag, by rw [encode, List.append_assoc, List.append_assoc]⟩, e.data.length,
      _, ⟨hdata, rfl⟩, e.data, rest, ⟨rfl, rfl⟩, rfl⟩

/-- Counted records are read back exactly. -/
theorem decodeN_eq_some_iff {n : Nat} : decodeN k l n stream = some (es, rest) ↔
    es.length = n ∧ (∀ e ∈ es, Fits k l e) ∧ stream = es.flatMap (encode l) ++ rest := by
  induction n generalizing es stream rest with
  | zero =>
      rw [decodeN, Option.some.injEq, Prod.mk.injEq, List.length_eq_zero_iff]
      constructor
      · rintro ⟨rfl, rfl⟩
        exact ⟨rfl, by simp, rfl⟩
      · rintro ⟨rfl, -, rfl⟩
        exact ⟨rfl, rfl⟩
  | succ n ih =>
      simp only [decodeN, Option.bind_eq_bind, Option.bind_eq_some_iff, Prod.exists,
        decode_eq_some_iff, ih, Option.pure_def, Option.some.injEq]
      constructor
      · rintro ⟨e, _, ⟨hfits, rfl⟩, es', _, ⟨rfl, hall, rfl⟩, heq⟩
        obtain ⟨rfl, rfl⟩ := Prod.mk.inj heq
        exact ⟨rfl, List.forall_mem_cons.mpr ⟨hfits, hall⟩, by simp⟩
      · rintro ⟨hlen, hall, rfl⟩
        obtain ⟨e, es, rfl⟩ := List.exists_cons_of_length_eq_add_one hlen
        obtain ⟨hfits, hall⟩ := List.forall_mem_cons.mp hall
        exact ⟨e, _, ⟨hfits, by simp⟩, es, rest, ⟨Nat.succ.inj hlen, hall, rfl⟩, rfl⟩

theorem encode_ne_nil (htag : e.tag ≠ []) : encode l e ≠ [] := by
  simp [encode, htag]

theorem decodeAll_sound {fuel : Nat} (h : decodeAll (decode k l) fuel stream = some es) :
    (∀ e ∈ es, Fits k l e) ∧ stream = es.flatMap (encode l) := by
  induction fuel generalizing es stream with
  | zero =>
      cases stream with
      | nil =>
          obtain rfl : [] = es := Option.some.inj h
          exact ⟨by simp, rfl⟩
      | cons b stream => exact absurd h (by simp [decodeAll])
  | succ fuel ih =>
      cases stream with
      | nil =>
          obtain rfl : [] = es := Option.some.inj h
          exact ⟨by simp, rfl⟩
      | cons b stream =>
          rw [decodeAll] at h
          split at h
          · exact absurd h (by simp)
          · rename_i e rest hfront
            obtain ⟨es', hrest, rfl⟩ := Option.map_eq_some_iff.mp h
            obtain ⟨hfits, hstream⟩ := decode_eq_some_iff.mp hfront
            obtain ⟨hall, rfl⟩ := ih hrest
            exact ⟨List.forall_mem_cons.mpr ⟨hfits, hall⟩, hstream⟩

/-- A stream of records is read back when, and only when, each of them fits. -/
theorem decodeStream_eq_some_iff (hk : k ≠ 0) : decodeStream (decode k l) stream = some es ↔
    (∀ e ∈ es, Fits k l e) ∧ stream = es.flatMap (encode l) := by
  constructor
  · exact decodeAll_sound
  · rintro ⟨hall, rfl⟩
    apply decodeStream_flatMap
    · intro e he
      apply encode_ne_nil
      intro hnil
      exact hk (by rw [← (hall e he).tag, hnil]; rfl)
    · intro e he rest
      exact decode_eq_some_iff.mpr ⟨hall e he, rfl⟩

end Records
