import EspushAt.Foundations.Records

/-!
# Certificate bundles

`make_cacert.py` and `make_cert.py` pack certificates and keys of a directory into one file,
each behind its name in 32 bytes and its length in two.
-/

namespace EspushAt

open CString Words Records

structure Cert where
  name : Bytes
  buff : Bytes
  deriving DecidableEq

/-- The name byte by byte into the slots; an index behind the last one is an error. -/
def fillName : Nat → Bytes → Bytes → Option Bytes
  | _, [], outStr => some outStr
  | i, b :: name, outStr =>
      if i < outStr.length then fillName (i + 1) name (outStr.set i b) else none

/-- `__str__`. -/
def Cert.str (c : Cert) : Option Bytes := do
  let outStr ← fillName 0 c.name (List.replicate 32 0)
  let len := c.buff.length
  return outStr ++ [UInt8.ofNat (len &&& 0xFF)] ++ [UInt8.ofNat ((len &&& 0xFF00) >>> 8)] ++ c.buff

/-- What `main` of both scripts writes. -/
def bundle (certs : List Cert) : Option Bytes := (certs.mapM Cert.str).map List.flatten

/-- A file of the directory. -/
structure File where
  name : Bytes
  content : Bytes
  zero_notMem : 0 ∉ name

/-- The files whose names end with `.cer`, under their whole names. -/
def caCertList (dir : List File) : List Cert :=
  (dir.filter fun f => (ascii ".cer").isSuffixOf f.name).map fun f => ⟨f.name, f.content⟩

/-- `make_cacert.py`. -/
def makeCacert (dir : List File) : Option Bytes := bundle (caCertList dir)

/-- Where a string first occurs in another. -/
def find (s part : Bytes) : Option Nat :=
  (List.range (s.length + 1)).find? fun pos => part.isPrefixOf (s.drop pos)

/-- `cert_file_list`: what stands before the endings, which may stand anywhere in a name. -/
def certFileList (dir : List File) : List Bytes :=
  dir.flatMap fun f =>
    ((find f.name (ascii ".key_1024")).map fun pos => f.name.take pos).toList ++
      ((find f.name (ascii ".cer")).map fun pos => f.name.take pos).toList

def openFile (dir : List File) (name : Bytes) : Option Bytes :=
  (dir.find? (·.name = name)).map File.content

/-- What one name puts on the list; a file that is not there is an error. -/
def certsOf (dir : List File) (certFile : Bytes) : Option (List Cert) :=
  if certFile = ascii "private_key" then
    (openFile dir (certFile ++ ascii ".key_1024")).map fun buff => [⟨certFile, buff⟩]
  else if certFile = ascii "certificate" then
    (openFile dir (certFile ++ ascii ".cer")).map fun buff => [⟨certFile, buff⟩]
  else some []

def certList (dir : List File) : Option (List Cert) :=
  ((certFileList dir).mapM (certsOf dir)).map List.flatten

/-- `make_cert.py`. -/
def makeCert (dir : List File) : Option Bytes := do
  let certs ← certList dir
  bundle certs

/-! ### What is written -/

/-- A certificate as a record. -/
def Cert.entry (c : Cert) : Entry := ⟨c.name ++ List.replicate (32 - c.name.length) 0, c.buff⟩

theorem fillName_eq {i : Nat} (name : Bytes) {outStr : Bytes} (hi : i ≤ outStr.length) :
    fillName i name outStr = if i + name.length ≤ outStr.length then
      some (outStr.take i ++ name ++ outStr.drop (i + name.length)) else none := by
  induction name generalizing i outStr with
  | nil => simp [fillName, hi]
  | cons b name ih =>
      rw [fillName, List.length_cons]
      by_cases hslot : i < outStr.length
      · have hlen : i + 1 ≤ (outStr.set i b).length := by rwa [List.length_set]
        have htake : (outStr.set i b).take (i + 1) = outStr.take i ++ [b] := by
          rw [List.take_succ_eq_append_getElem hlen, List.getElem_set_self, List.take_set,
            List.set_eq_of_length_le (List.length_take_le _ _)]
        have hdrop : (outStr.set i b).drop (i + 1 + name.length) =
            outStr.drop (i + (name.length + 1)) := by
          rw [List.drop_set_of_lt (by omega), Nat.add_assoc, Nat.add_comm 1]
        rw [if_pos hslot, ih hlen, htake, hdrop, List.length_set, Nat.add_assoc, Nat.add_comm 1]
        simp
      · rw [if_neg hslot, if_neg (by omega)]

/-- A certificate is written as a record when its name has 32 bytes at most. -/
theorem str_eq (c : Cert) :
    c.str = if c.name.length ≤ 32 then some (encode 2 c.entry) else none := by
  have hlow : c.buff.length &&& 0xFF = c.buff.length % 256 := Nat.and_two_pow_sub_one_eq_mod _ 8
  have hhigh : (c.buff.length &&& 0xFF00) >>> 8 = c.buff.length / 256 % 256 := by
    rw [Nat.shiftRight_and_distrib, Nat.shiftRight_eq_div_pow]
    exact Nat.and_two_pow_sub_one_eq_mod _ 8
  rw [Cert.str, fillName_eq c.name (Nat.zero_le _), Nat.zero_add, List.length_replicate]
  split_ifs
  · have hbyte : ∀ n, UInt8.ofNat (n % 256) = UInt8.ofNat n := fun n =>
      UInt8.toNat_inj.mp (Nat.mod_mod n 256)
    simp only [hlow, hhigh, hbyte, List.take_zero, List.drop_replicate, encode, Cert.entry,
      littleEndian, List.nil_append, List.append_assoc, List.cons_append, Option.pure_def,
      Option.bind_eq_bind, Option.bind_some]
  · rfl

/-- A bundle is the records of its certificates; with a longer name there is none. -/
theorem bundle_eq (certs : List Cert) : bundle certs =
    if ∀ c ∈ certs, c.name.length ≤ 32 then some ((certs.map Cert.entry).flatMap (encode 2))
    else none := by
  induction certs with
  | nil => rfl
  | cons c certs ih =>
      have hcons : bundle (c :: certs) =
          c.str.bind fun s => (bundle certs).map fun rest => s ++ rest := by
        cases hstr : c.str <;> cases hrest : certs.mapM Cert.str <;>
          simp [bundle, hstr, hrest]
      rw [hcons, ih, str_eq]
      by_cases hname : c.name.length ≤ 32
      · simp only [List.forall_mem_cons, hname, if_true, true_and]
        split_ifs <;> rfl
      · have hall : ¬∀ c' ∈ c :: certs, c'.name.length ≤ 32 := fun h =>
          hname (h c List.mem_cons_self)
        rw [if_neg hname, if_neg hall]
        rfl

end EspushAt
