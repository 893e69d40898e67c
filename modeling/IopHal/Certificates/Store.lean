import IopHal.Certificates

/-!
# The certificate store of the ESP8266

The generated header becomes a `CertList`, and `CertStore::findHashedTA` searches it for the hash of an issuer name.  A header
that builds has the certificates of all PEM cells but the first (`certList_of_csv`), and the search finds
exactly their issuers (`findHashedTA_of`).  `lossless_iff` says for which files that is all of them.
-/

namespace IopHal

/-! ### The list -/

/-- The tables in the flash. -/
structure CertList where
  sizes : List UInt16
  /-- what is behind the table of sizes, where the read of the last size ends -/
  beyond : UInt16
  indexes : List Bytes
  certs : List Bytes
  numberOfCertificates : UInt16

/-- A name stays in its comment: it does not end the line, and does not join the next one to it. -/
def staysInComment (name : Bytes) : Bool :=
  !name.contains LF && (name.reverse.dropWhile isspace).head? != some 92

/-- A size in the braces of a `uint16_t` array: one that does not fit is an error. -/
def narrow (n : Nat) : Option UInt16 := if n < 2 ^ 16 then some n.toUInt16 else none

/-- What the compiler makes of the header. -/
def Generated.certList (g : Generated) (beyond : UInt16) : Option CertList := do
  if g.comments.all staysInComment then
    let sizes ← g.certSizes.mapM narrow
    let certs ← g.certificates.mapM fun i => g.certs.lookup i
    let indexes ← g.indexes.mapM fun i => g.idxs.lookup i
    return ⟨sizes, beyond, indexes, certs, g.numberOfCertificates.toUInt16⟩
  else none

/-- The list in a device for which the generator and the compiler have run on a file. -/
def buildCertList (t : Tools) (rows : List Row) (beyond : UInt16) : Option CertList :=
  match generate t rows with
  | .error _ => none
  | .ok g => g.certList beyond

structure Cert where
  size : UInt16
  index : Bytes
  cert : Bytes

namespace CertList

def count (list : CertList) : UInt16 := list.numberOfCertificates

/-- `pgm_read_dword` in the table of sizes takes in two of them. -/
def readSizes (list : CertList) (index : Nat) : Option UInt32 :=
  list.sizes[index]?.map fun size => .ofNat (size.toNat + 2 ^ 16 * (list.sizes[index + 1]?.getD list.beyond).toNat)

/-- `none` where it reads outside of the tables -/
def cert (list : CertList) (index : UInt16) : Option Cert := do
  let cert ← list.certs[index.toNat]?
  let idx ← list.indexes[index.toNat]?
  let size ← list.readSizes index.toNat
  return ⟨size.toUInt16, idx, cert⟩

end CertList

/-! ### The search -/

def hashSize : Nat := 32

/-- What a trust anchor has: its certificate, and the name that it is found by. -/
structure TrustAnchor where
  certificate : Bytes
  dn : Bytes

structure CertStore where
  x509 : Option TrustAnchor
  certList : CertList

/-- Which of the two allocations of a search succeed. -/
structure Allocations where
  der : Bool
  x509 : Bool

namespace CertStore

/-- The certificate that the search has found becomes the anchor. -/
def install (m : Allocations) (cs : CertStore) (cert : Cert) : Outcome (CertStore × Option TrustAnchor) :=
  if m.der = false then .panicked (ascii "Cert allocation failed")
  else if cert.cert.length < cert.size.toNat then .undefined
  else if m.x509 = false then .panicked (ascii "OOM")
  else
    let ta : TrustAnchor := ⟨cert.cert.take cert.size.toNat, cert.index.take hashSize⟩
    .returned ({ cs with x509 := some ta }, some ta)

/-- The counter of the loop does not wrap. -/
theorem toNat_next {i count : UInt16} (h : i < count) : (i + 1).toNat = i.toNat + 1 := by
  rw [UInt16.lt_iff_toNat_lt] at h
  have hbound := count.toNat_lt
  rw [UInt16.toNat_add]
  exact Nat.mod_eq_of_lt (by simp; omega)

/-- The loop from `i` on. -/
def findFrom (m : Allocations) (cs : CertStore) (hashedDn : Bytes) (i : UInt16) : Outcome (CertStore × Option TrustAnchor) :=
  if i < cs.certList.count then
    match cs.certList.cert i with
    | none => .undefined
    | some cert =>
      if hashedDn.length < hashSize ∨ cert.index.length < hashSize then .undefined
      else if hashedDn.take hashSize = cert.index.take hashSize then cs.install m cert
      else findFrom m cs hashedDn (i + 1)
  else .returned (cs, none)
termination_by cs.certList.count.toNat - i.toNat
decreasing_by
  have hlt : i.toNat < cs.certList.count.toNat := UInt16.lt_iff_toNat_lt.1 ‹_›
  have hnext := toNat_next ‹i < cs.certList.count›
  omega

def findHashedTA (m : Allocations) (ctx : Option CertStore) (hashedDn : Option Bytes) (len : Nat) :
    Outcome (CertStore × Option TrustAnchor) :=
  match ctx with
  | none => .panicked
    (ascii "ctx is nullptr, this is unreachable because if this method is accessible, the ctx is set")
  | some cs =>
    match hashedDn with
    | none => .panicked (ascii "hashed_dn is nullptr, this is unreachable because it's a static array")
    | some hashedDn =>
      if len ≠ hashSize then .panicked (ascii "Invalid hash len") else findFrom m cs hashedDn 0

end CertStore

/-! ### The list of a file -/

/-- The list of these certificates. -/
def CertList.of (t : Tools) (beyond : UInt16) (ders : List Bytes) : CertList where
  sizes := ders.map fun bytestr => bytestr.length.toUInt16
  beyond := beyond
  indexes := ders.map t.idxHash
  certs := ders
  numberOfCertificates := ders.length.toUInt16

theorem mapM_narrow (l : List Nat) :
    l.mapM narrow = if ∀ n ∈ l, n < 2 ^ 16 then some (l.map Nat.toUInt16) else none := by
  induction l with
  | nil => rfl
  | cons n l ih =>
    rw [List.mapM_cons, ih]
    by_cases hn : n < 2 ^ 16
    · simp only [List.forall_mem_cons, hn, true_and]
      rw [narrow, if_pos hn]
      split <;> rfl
    · have hall : ¬ ∀ k ∈ n :: l, k < 2 ^ 16 := fun h => hn (h n List.mem_cons_self)
      rw [narrow, if_neg hn, if_neg hall]
      rfl

/-- What the compiler needs: names that stay in their comments, and certificates whose sizes fit. -/
structure Compiles (comments ders : List Bytes) : Prop where
  comments : ∀ name ∈ comments, staysInComment name = true
  sizes : ∀ bytestr ∈ ders, bytestr.length < 2 ^ 16

theorem certList_of (t : Tools) (comments ders : List Bytes) (beyond : UInt16) (list : CertList) :
    (Generated.of t comments ders).certList beyond = some list ↔
      Compiles comments ders ∧ list = .of t beyond ders := by
  have hcerts : (List.range ders.length).mapM (fun i => (Numbered.declare 0 ders).lookup i) = some ders :=
    Numbered.mapM_lookup_declare ders
  have hidxs : (List.range ders.length).mapM (fun i => (Numbered.declare 0 (ders.map t.idxHash)).lookup i) =
      some (ders.map t.idxHash) := by
    have hall := Numbered.mapM_lookup_declare (ders.map t.idxHash)
    rwa [List.length_map] at hall
  unfold Generated.certList Generated.of
  simp only [hcerts, hidxs, mapM_narrow, List.forall_mem_map, List.all_eq_true]
  by_cases hcomments : ∀ name ∈ comments, staysInComment name = true
  · by_cases hsizes : ∀ bytestr ∈ ders, bytestr.length < 2 ^ 16
    · rw [if_pos hcomments, if_pos hsizes]
      show some _ = some _ ↔ _
      rw [Option.some.injEq, List.map_map]
      exact ⟨fun h => ⟨⟨hcomments, hsizes⟩, h.symm⟩, fun h => h.2.symm⟩
    · rw [if_pos hcomments, if_neg hsizes]
      exact iff_of_false (fun h => nomatch h) fun h => hsizes h.1.sizes
  · rw [if_neg hcomments]
    exact iff_of_false (fun h => nomatch h) fun h => hcomments h.1.comments

theorem certList_of_csv (t : Tools) (r : Report) (beyond : UInt16) (list : CertList) :
    buildCertList t r.csv beyond = some list ↔
      r.Readable ∧ Compiles (r.names.map printable) (r.kept t) ∧ list = .of t beyond (r.kept t) := by
  have hgenerate := generate_csv t r
  unfold buildCertList
  cases hresult : generate t r.csv with
  | error e =>
    refine iff_of_false (fun h => nomatch h) fun h => ?_
    have hok := (hgenerate _).2 ⟨h.1, rfl⟩
    rw [hresult] at hok
    contradiction
  | ok g =>
    obtain ⟨hreadable, rfl⟩ := (hgenerate g).1 hresult
    show (Generated.of t _ _).certList beyond = _ ↔ _
    rw [certList_of]
    exact ⟨fun h => ⟨hreadable, h⟩, fun h => h.2⟩

/-! ### What is found -/

section findFrom

variable (t : Tools) (beyond : UInt16) {ders : List Bytes}

theorem toNat_count (h : ders.length < 2 ^ 16) : (CertList.of t beyond ders).count.toNat = ders.length :=
  UInt16.toNat_ofNat_of_lt h

theorem lt_count_iff {i : UInt16} (h : ders.length < 2 ^ 16) : i < (CertList.of t beyond ders).count ↔ i.toNat < ders.length := by
  rw [UInt16.lt_iff_toNat_lt, toNat_count t beyond h]

/-- The upper half of what is read is lost. -/
theorem readSizes_of {i : Nat} {bytestr : Bytes} (hi : ders[i]? = some bytestr) :
    ∃ size, (CertList.of t beyond ders).readSizes i = some size ∧ size.toUInt16 = bytestr.length.toUInt16 := by
  have hsize : (CertList.of t beyond ders).sizes[i]? = some bytestr.length.toUInt16 := by
    show (ders.map _)[i]? = _
    rw [List.getElem?_map, hi]
    rfl
  refine ⟨_, by rw [CertList.readSizes, hsize]; rfl, ?_⟩
  rw [← UInt16.toNat_inj, UInt32.toNat_toUInt16, UInt32.toNat_ofNat']
  have hlt := (bytestr.length.toUInt16).toNat_lt
  omega

theorem cert_of {i : UInt16} {bytestr : Bytes} (hi : ders[i.toNat]? = some bytestr) :
    (CertList.of t beyond ders).cert i = some ⟨bytestr.length.toUInt16, t.idxHash bytestr, bytestr⟩ := by
  obtain ⟨size, hread, hsize⟩ := readSizes_of t beyond hi
  have hindex : (CertList.of t beyond ders).indexes[i.toNat]? = some (t.idxHash bytestr) := by
    show (ders.map _)[i.toNat]? = _
    rw [List.getElem?_map, hi]
    rfl
  have hcert : (CertList.of t beyond ders).certs[i.toNat]? = some bytestr := hi
  unfold CertList.cert
  rw [hcert, hindex, hread, ← hsize]
  rfl

theorem length_idxHash (bytestr : Bytes) : (t.idxHash bytestr).length = hashSize := Vector.length_toList

theorem take_hashSize {l : Bytes} (h : l.length = hashSize) : l.take hashSize = l := List.take_of_length_le h.le

/-- One pass of the search with enough memory, at a certificate. -/
theorem findFrom_step (x509 : Option TrustAnchor) {hash bytestr : Bytes} {i : UInt16} (hhash : hash.length = hashSize)
    (hsizes : ∀ bytestr ∈ ders, bytestr.length < 2 ^ 16) (hcount : ders.length < 2 ^ 16)
    (hi : ders[i.toNat]? = some bytestr) :
    CertStore.findFrom ⟨true, true⟩ ⟨x509, .of t beyond ders⟩ hash i =
      if t.idxHash bytestr = hash then .returned (⟨some ⟨bytestr, hash⟩, .of t beyond ders⟩, some ⟨bytestr, hash⟩)
      else CertStore.findFrom ⟨true, true⟩ ⟨x509, .of t beyond ders⟩ hash (i + 1) := by
  have hinside : i < (CertStore.mk x509 (.of t beyond ders)).certList.count :=
    (lt_count_iff t beyond hcount).2 (List.getElem?_eq_some_iff.1 hi).1
  have hlengths : ¬ (hash.length < hashSize ∨ (t.idxHash bytestr).length < hashSize) := by
    rw [hhash, length_idxHash]
    decide
  rw [CertStore.findFrom, if_pos hinside]
  simp only [cert_of t beyond hi, if_neg hlengths, take_hashSize hhash, take_hashSize (length_idxHash t bytestr)]
  by_cases hfound : t.idxHash bytestr = hash
  · have hsize : (bytestr.length.toUInt16).toNat = bytestr.length :=
      UInt16.toNat_ofNat_of_lt (hsizes _ (List.mem_of_getElem? hi))
    rw [if_pos hfound.symm, if_pos hfound, CertStore.install]
    simp [hsize, hfound, take_hashSize hhash]
  · rw [if_neg (Ne.symm hfound), if_neg hfound]

/-- The search from `i` on: the first certificate of this issuer becomes the anchor. -/
theorem findFrom_of (x509 : Option TrustAnchor) {hash : Bytes} (hhash : hash.length = hashSize)
    (hsizes : ∀ bytestr ∈ ders, bytestr.length < 2 ^ 16) (hcount : ders.length < 2 ^ 16) {i : UInt16}
    {rest : List Bytes} (hrest : ders.drop i.toNat = rest) :
    CertStore.findFrom ⟨true, true⟩ ⟨x509, .of t beyond ders⟩ hash i =
      match rest.find? fun bytestr => t.idxHash bytestr = hash with
      | some bytestr => .returned (⟨some ⟨bytestr, hash⟩, .of t beyond ders⟩, some ⟨bytestr, hash⟩)
      | none => .returned (⟨x509, .of t beyond ders⟩, none) := by
  induction rest generalizing i with
  | nil =>
    have hle : ders.length ≤ i.toNat := List.drop_eq_nil_iff.1 hrest
    have houtside : ¬ i < (CertList.of t beyond ders).count := by
      rw [lt_count_iff t beyond hcount]
      omega
    rw [CertStore.findFrom, if_neg houtside]
    rfl
  | cons bytestr rest ih =>
    have hlt : i.toNat < ders.length := by
      have hlength := congrArg List.length hrest
      rw [List.length_drop, List.length_cons] at hlength
      omega
    have hsplit := List.drop_eq_getElem_cons hlt
    rw [hrest, List.cons.injEq] at hsplit
    have hi : ders[i.toNat]? = some bytestr := by rw [List.getElem?_eq_getElem hlt, hsplit.1]
    have hnext := CertStore.toNat_next ((lt_count_iff t beyond hcount).2 hlt)
    rw [findFrom_step t beyond x509 hhash hsizes hcount hi, ih (by rw [hnext, hsplit.2]), List.find?_cons]
    by_cases hfound : t.idxHash bytestr = hash <;> simp [hfound]

theorem findHashedTA_of (x509 : Option TrustAnchor) {hash : Bytes} (hhash : hash.length = hashSize)
    (hsizes : ∀ bytestr ∈ ders, bytestr.length < 2 ^ 16) (hcount : ders.length < 2 ^ 16) :
    CertStore.findHashedTA ⟨true, true⟩ (some ⟨x509, .of t beyond ders⟩) (some hash) hashSize =
      match ders.find? fun bytestr => t.idxHash bytestr = hash with
      | some bytestr => .returned (⟨some ⟨bytestr, hash⟩, .of t beyond ders⟩, some ⟨bytestr, hash⟩)
      | none => .returned (⟨x509, .of t beyond ders⟩, none) := by
  have hstart : ders.drop (0 : UInt16).toNat = ders := rfl
  rw [← findFrom_of t beyond x509 hhash hsizes hcount hstart]
  rfl

end findFrom

/-! ### Lost roots -/

/-- The list of a device has these certificates in order, with the hashes of their issuers and their sizes.  The search finds
an anchor for the hash of each issuer, and none for any other hash. -/
structure CertList.Keeps (list : CertList) (t : Tools) (ders : List Bytes) : Prop where
  certs : list.certs = ders
  indexes : list.indexes = ders.map t.idxHash
  sizes : list.sizes.map UInt16.toNat = ders.map List.length
  count : list.numberOfCertificates.toNat = ders.length
  finds : ∀ x509, ∀ bytestr ∈ ders, ∃ ta,
    CertStore.findHashedTA ⟨true, true⟩ (some ⟨x509, list⟩) (some (t.idxHash bytestr)) hashSize =
      .returned (⟨some ta, list⟩, some ta) ∧
    ta.dn = t.idxHash bytestr ∧ ta.certificate ∈ ders ∧ t.idxHash ta.certificate = ta.dn
  misses : ∀ x509, ∀ hash : Bytes, hash.length = hashSize → hash ∉ ders.map t.idxHash →
    CertStore.findHashedTA ⟨true, true⟩ (some ⟨x509, list⟩) (some hash) hashSize = .returned (⟨x509, list⟩, none)

/-- The tables of these certificates. -/
theorem keeps_of (t : Tools) (beyond : UInt16) {ders : List Bytes} (hsizes : ∀ bytestr ∈ ders, bytestr.length < 2 ^ 16)
    (hcount : ders.length < 2 ^ 16) : (CertList.of t beyond ders).Keeps t ders := by
  refine ⟨rfl, rfl, ?_, toNat_count t beyond hcount, fun x509 bytestr hbytestr => ?_, fun x509 hash hhash hother => ?_⟩
  · show (ders.map _).map UInt16.toNat = _
    rw [List.map_map]
    exact List.map_congr_left fun bytestr hbytestr => UInt16.toNat_ofNat_of_lt (hsizes bytestr hbytestr)
  · have hresult := findHashedTA_of t beyond x509 (length_idxHash t bytestr) hsizes hcount
    cases hfind : ders.find? fun other => t.idxHash other = t.idxHash bytestr with
    | none =>
      have hnone := List.find?_eq_none.1 hfind bytestr hbytestr
      simp at hnone
    | some found =>
      have hissuer := List.find?_some hfind
      rw [hfind] at hresult
      exact ⟨⟨found, t.idxHash bytestr⟩, hresult, rfl, List.mem_of_find?_eq_some hfind, of_decide_eq_true hissuer⟩
  · have hresult := findHashedTA_of t beyond x509 hhash hsizes hcount
    have hnone : ders.find? (fun other => t.idxHash other = hash) = none := by
      rw [List.find?_eq_none]
      intro other hmem hissuer
      exact hother (List.mem_map.2 ⟨other, hmem, of_decide_eq_true hissuer⟩)
    rw [hnone] at hresult
    exact hresult

/-- No trusted root is lost: there is a list, and it keeps the certificates of all PEM cells. -/
def Report.Lossless (r : Report) (t : Tools) : Prop :=
  ∀ beyond, ∃ list, buildCertList t r.csv beyond = some list ∧ list.Keeps t (r.ders t)

/-- What that takes.  The first PEM cell has to be one that is no certificate. -/
structure Report.Complete (r : Report) (t : Tools) : Prop where
  columns : ∀ row ∈ r.csv, 3 ≤ row.length
  first : ∃ pem pems, r.pems = pem :: pems ∧ t.der (unquote pem) = none
  names : r.pems.length ≤ r.rows.length + 1
  comments : ∀ name ∈ r.names, staysInComment (printable name) = true
  sizes : ∀ bytestr ∈ r.ders t, bytestr.length < 2 ^ 16
  count : (r.ders t).length < 2 ^ 16

/-- The generator keeps all certificates only if the first PEM cell has none. -/
theorem Report.kept_eq_iff (r : Report) (t : Tools) {pem : Bytes} {pems : List Bytes} (h : r.pems = pem :: pems) :
    r.kept t = r.ders t ↔ t.der (unquote pem) = none := by
  have hders : r.ders t = (t.der (unquote pem)).toList ++ r.kept t := by
    rw [ders, kept, h, List.tail_cons, Tools.ders, Tools.ders, List.filterMap_cons]
    cases t.der (unquote pem) <;> rfl
  rw [hders, List.self_eq_append_left, Option.toList_eq_nil_iff]

/-- Two rows with a certificate each. -/
def twoRoots : Report where
  header := [ascii "Owner", ascii "Organization", ascii "Name", ascii "PEM"]
  rows :=
    [[ascii "o", ascii "o", ascii "a", ascii "'-----BEGIN CERTIFICATE-----A'"],
      [ascii "o", ascii "o", ascii "b", ascii "'-----BEGIN CERTIFICATE-----B'"]]
  header_pem := by decide

/-- Tools that take what is behind the first line for the certificate and for the name of its issuer. -/
def plainTools : Tools where
  der pem := some (pem.drop 27)
  issuer bytestr := bytestr
  sha256 name := .replicate 32 (name.headD 0)

end IopHal
