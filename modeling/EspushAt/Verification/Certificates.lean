import EspushAt.Tools.Certificates

/-!
# Bundles read back

What a bundle is read back as, record by record and each name up to its first zero byte.
Names have 32 bytes and lengths 16 bits, and the scripts check neither: a longer name is an
error, and a longer certificate spoils the bundle.
-/

namespace EspushAt

open CString Words Records Framing

def readCerts (out : Bytes) : Option (List Cert) :=
  (decodeStream (decode 32 2) out).map fun es => es.map fun e => ⟨text e.tag, e.data⟩

section Read

variable {c : Cert} {certs : List Cert}

theorem text_replicate_zero (n : Nat) : text (List.replicate n 0) = [] := by
  cases n <;> simp [text, List.replicate_succ]

theorem text_entry (h : 0 ∉ c.name) : text c.entry.tag = c.name := by
  rw [Cert.entry, text_append_of_notMem h, text_replicate_zero, List.append_nil]

theorem fits_entry_iff :
    Fits 32 2 c.entry ↔ c.name.length ≤ 32 ∧ c.buff.length < 2 ^ 16 := by
  have htag : c.entry.tag.length = 32 ↔ c.name.length ≤ 32 := by
    rw [Cert.entry, List.length_append, List.length_replicate]
    omega
  exact ⟨fun h => ⟨htag.mp h.tag, h.data⟩, fun h => ⟨htag.mpr h.1, h.2⟩⟩

/-- A bundle is read back as what was bundled when, and only when, all of it fits. -/
theorem readCerts_bundle_iff (hnames : ∀ c ∈ certs, 0 ∉ c.name) :
    (bundle certs).bind readCerts = some certs ↔
      ∀ c ∈ certs, c.name.length ≤ 32 ∧ c.buff.length < 2 ^ 16 := by
  rw [bundle_eq]
  constructor
  · intro h
    by_cases hshort : ∀ c ∈ certs, c.name.length ≤ 32
    case neg =>
      rw [if_neg hshort] at h
      exact absurd h (by simp)
    rw [if_pos hshort] at h
    obtain ⟨es, hes, hcerts⟩ := Option.map_eq_some_iff.mp h
    obtain ⟨hfits, -⟩ := (decodeStream_eq_some_iff (by decide)).mp hes
    intro c hc
    refine ⟨hshort c hc, ?_⟩
    rw [← hcerts] at hc
    obtain ⟨e, he, rfl⟩ := List.mem_map.mp hc
    exact (hfits e he).data
  · intro h
    have hread : decodeStream (decode 32 2) ((certs.map Cert.entry).flatMap (encode 2)) =
        some (certs.map Cert.entry) := by
      refine (decodeStream_eq_some_iff (by decide)).mpr ⟨?_, rfl⟩
      intro e he
      obtain ⟨c, hc, rfl⟩ := List.mem_map.mp he
      exact fits_entry_iff.mpr (h c hc)
    rw [if_pos fun c hc => (h c hc).1, Option.bind_some, readCerts, hread, Option.map_some,
      List.map_map]
    refine congrArg some ((List.map_congr_left fun c hc => ?_).trans (List.map_id _))
    rw [Function.comp_apply, text_entry (hnames c hc)]
    rfl

end Read

/-- The certificates of a directory are read back when, and only when, no name has more
than 32 bytes and each certificate has less than 64 KiB. -/
theorem makeCacert_readable_iff (dir : List File) :
    (makeCacert dir).bind readCerts = some (caCertList dir) ↔
      ∀ f ∈ dir, ascii ".cer" <:+ f.name → f.name.length ≤ 32 ∧ f.content.length < 2 ^ 16 := by
  have hnames : ∀ c ∈ caCertList dir, 0 ∉ c.name := by
    intro c hc
    obtain ⟨f, -, rfl⟩ := List.mem_map.mp hc
    exact f.zero_notMem
  rw [makeCacert, readCerts_bundle_iff hnames, caCertList, List.forall_mem_map]
  simp only [List.mem_filter, List.isSuffixOf_iff_suffix, and_imp]

/-! ### Keys -/

section Names

variable {s stem part : Bytes}

/-- What stands before an ending is a given name without a dot when the whole begins with
the name and the ending. -/
theorem find_eq_stem_iff (hstem : 46 ∉ stem) :
    (find s (46 :: part)).map (fun pos => s.take pos) = some stem ↔ stem ++ 46 :: part <+: s := by
  rw [find, Option.map_eq_some_iff]
  constructor
  · rintro ⟨pos, hpos, rfl⟩
    have hpart := List.find?_some hpos
    rw [List.isPrefixOf_iff_prefix] at hpart
    obtain ⟨rest, hrest⟩ := hpart
    exact ⟨rest, by rw [List.append_assoc, hrest, List.take_append_drop]⟩
  · rintro ⟨rest, rfl⟩
    refine ⟨stem.length, List.find?_range_eq_some.mpr ⟨?_, ?_, ?_⟩, by simp⟩
    · simp [List.isPrefixOf_iff_prefix]
    · simp only [List.mem_range, List.length_append]
      omega
    · -- before that there is no dot
      intro pos hpos
      rw [Bool.not_eq_true', Bool.eq_false_iff, ne_eq, List.isPrefixOf_iff_prefix]
      rintro ⟨back, hback⟩
      have hdot : (stem ++ (46 :: part ++ rest))[pos]? = some 46 := by
        rw [← List.append_assoc, ← List.head?_drop, ← hback]
        rfl
      rw [List.getElem?_append_left hpos] at hdot
      exact hstem (List.mem_of_getElem? hdot)

theorem count_toList (o : Option Bytes) (name : Bytes) :
    o.toList.count name = if o = some name then 1 else 0 := by
  cases o <;> simp [List.count_cons]

/-- A name is on the list once for each file that begins with it and one of the endings. -/
theorem count_certFileList (dir : List File) (hstem : 46 ∉ stem) :
    (certFileList dir).count stem =
      dir.countP (fun f => stem ++ ascii ".key_1024" <+: f.name) +
        dir.countP (fun f => stem ++ ascii ".cer" <+: f.name) := by
  have hkey : ascii ".key_1024" = 46 :: ascii "key_1024" := by decide
  have hcer : ascii ".cer" = 46 :: ascii "cer" := by decide
  rw [certFileList, hkey, hcer]
  induction dir with
  | nil => rfl
  | cons f dir ih =>
      simp only [List.flatMap_cons, List.count_append, count_toList, ih, List.countP_cons,
        find_eq_stem_iff hstem, decide_eq_true_eq]
      omega

end Names

/-- A name of its own, with the file that is packed under it. -/
def Packed (dir : List File) (c : Cert) : Prop :=
  (c.name = ascii "private_key" ∧ openFile dir (ascii "private_key.key_1024") = some c.buff) ∨
    (c.name = ascii "certificate" ∧ openFile dir (ascii "certificate.cer") = some c.buff)

section Keys

variable {dir : List File} {certs : List Cert} {name stem : Bytes}

/-- What one name puts on the list. -/
theorem certsOf_cases (h : certsOf dir name = some certs) :
    (∃ buff, certs = [⟨name, buff⟩] ∧ Packed dir ⟨name, buff⟩) ∨
      (certs = [] ∧ name ≠ ascii "private_key" ∧ name ≠ ascii "certificate") := by
  rw [certsOf] at h
  split_ifs at h with hkey hcert
  · obtain ⟨buff, hopen, rfl⟩ := Option.map_eq_some_iff.mp h
    subst hkey
    exact .inl ⟨buff, rfl, .inl ⟨rfl, hopen⟩⟩
  · obtain ⟨buff, hopen, rfl⟩ := Option.map_eq_some_iff.mp h
    subst hcert
    exact .inl ⟨buff, rfl, .inr ⟨rfl, hopen⟩⟩
  · exact .inr ⟨(Option.some.inj h).symm, hkey, hcert⟩

theorem certList_cases {names : List Bytes} {lists : List (List Cert)}
    (h : names.mapM (certsOf dir) = some lists)
    (hstem : stem = ascii "private_key" ∨ stem = ascii "certificate") :
    (∀ c ∈ lists.flatten, Packed dir c) ∧
      lists.flatten.countP (fun c => c.name = stem) = names.count stem := by
  induction names generalizing lists with
  | nil =>
      obtain rfl : [] = lists := Option.some.inj h
      exact ⟨by simp, rfl⟩
  | cons name names ih =>
      rw [List.mapM_cons] at h
      obtain ⟨certs, hcerts, h⟩ := Option.bind_eq_some_iff.mp h
      obtain ⟨rest, hrest, h⟩ := Option.bind_eq_some_iff.mp h
      obtain rfl : certs :: rest = lists := Option.some.inj h
      obtain ⟨hall, hcount⟩ := ih hrest
      rw [List.flatten_cons, List.countP_append, hcount, List.count_cons, Nat.add_comm]
      rcases certsOf_cases hcerts with ⟨buff, rfl, hpacked⟩ | ⟨rfl, hkey, hcert⟩
      · exact ⟨List.forall_mem_cons.mpr ⟨hpacked, hall⟩, by simp [List.countP_cons]⟩
      · have hne : name ≠ stem := by
          rcases hstem with rfl | rfl
          · exact hkey
          · exact hcert
        exact ⟨hall, by simp [hne]⟩

/-- What is packed for a device is read back when it is short enough: its key and its
certificate, each once for every file whose name begins with its name and one of the
endings. -/
theorem makeCert_readable (h : certList dir = some certs) :
    ((makeCert dir).bind readCerts = some certs ↔ ∀ c ∈ certs, c.buff.length < 2 ^ 16) ∧
      (∀ c ∈ certs, Packed dir c) ∧
      ∀ stem, stem = ascii "private_key" ∨ stem = ascii "certificate" →
        certs.countP (fun c => c.name = stem) =
          dir.countP (fun f => stem ++ ascii ".key_1024" <+: f.name) +
            dir.countP (fun f => stem ++ ascii ".cer" <+: f.name) := by
  obtain ⟨lists, hlists, rfl⟩ := Option.map_eq_some_iff.mp h
  have hpacked := (certList_cases hlists (.inl rfl)).1
  refine ⟨?_, hpacked, ?_⟩
  · have hname : ∀ c ∈ lists.flatten, 0 ∉ c.name ∧ c.name.length ≤ 32 := by
      intro c hc
      rcases hpacked c hc with ⟨hname, -⟩ | ⟨hname, -⟩ <;> rw [hname] <;> decide
    rw [makeCert, h]
    refine (readCerts_bundle_iff fun c hc => (hname c hc).1).trans ?_
    exact forall₂_congr fun c hc => and_iff_right (hname c hc).2
  · intro stem hstem
    rw [(certList_cases hlists hstem).2]
    refine count_certFileList dir ?_
    rcases hstem with rfl | rfl <;> decide

/-- A key that is there twice. -/
theorem makeCert_readable_twice :
    let dir : List File := [⟨ascii "private_key.key_1024", [1], by decide⟩,
      ⟨ascii "private_key.cer", [2], by decide⟩, ⟨ascii "certificate.cer", [3], by decide⟩]
    let key : Cert := ⟨ascii "private_key", [1]⟩
    let certs := [key, key, ⟨ascii "certificate", [3]⟩]
    ((makeCert dir).bind readCerts = some certs ↔ ∀ c ∈ certs, c.buff.length < 2 ^ 16) ∧
      (∀ c ∈ certs, Packed dir c) ∧
      ∀ stem, stem = ascii "private_key" ∨ stem = ascii "certificate" →
        certs.countP (fun c => c.name = stem) =
          dir.countP (fun f => stem ++ ascii ".key_1024" <+: f.name) +
            dir.countP (fun f => stem ++ ascii ".cer" <+: f.name) :=
  makeCert_readable (by decide)

end Keys

end EspushAt
