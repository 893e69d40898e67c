import IopHal.Certificates.Roots
import IopHal.Library.Delimited
import IopHal.Library.Records

/-!
# The certificates of the ESP32

`preBuildCertificates` reads the PEM certificates of `ca-bundle.crt`, sorts them by the names of their subjects and writes the
names and the public keys into an array of bytes.  `addFromPem_eq` says which texts it takes for certificates, and
`readBundle_createBundle` that the bundle reads back as the format says.

Texts are their bytes in UTF-8.  The download, the cached header and the texts around the array are left out.
-/

namespace IopHal.Esp32

open CaBundle

/-! ### Reading the file -/

/-- `splitlines(True)`, behind the beginning of the first line. -/
def splitlinesFrom : Bytes → Bytes → List Bytes
  | current, [] => if current.isEmpty then [] else [current]
  | current, 13 :: 10 :: s => (current ++ [13, 10]) :: splitlinesFrom [] s
  -- U+0085, U+2028 and U+2029
  | current, 0xC2 :: 0x85 :: s => (current ++ [0xC2, 0x85]) :: splitlinesFrom [] s
  | current, 0xE2 :: 0x80 :: 0xA8 :: s => (current ++ [0xE2, 0x80, 0xA8]) :: splitlinesFrom [] s
  | current, 0xE2 :: 0x80 :: 0xA9 :: s => (current ++ [0xE2, 0x80, 0xA9]) :: splitlinesFrom [] s
  | current, b :: s =>
    if (10 ≤ b ∧ b ≤ 13) ∨ (28 ≤ b ∧ b ≤ 30) then (current ++ [b]) :: splitlinesFrom [] s
    else splitlinesFrom (current ++ [b]) s

def splitlines (text : Bytes) : List Bytes := splitlinesFrom [] text

/-- What the package `cryptography` makes of a text, and says of a certificate. -/
structure X509 (Certificate : Type) where
  /-- `x509.load_pem_x509_certificate`, which raises an exception for other texts -/
  loadPem : Bytes → Option Certificate
  /-- `subject.public_bytes` -/
  subject : Certificate → Bytes
  /-- `public_key().public_bytes(DER, SubjectPublicKeyInfo)` -/
  publicKey : Certificate → Bytes

variable {Certificate : Type} (x : X509 Certificate)

/-- The variables of `add_from_pem`. -/
structure Scan (Certificate : Type) where
  crt : Bytes
  count : Nat
  start : Bool
  certificates : List Certificate

def scan (s : Scan Certificate) (strg : Bytes) : Option (Scan Certificate) := do
  let s ←
    if strg = beginCertificate ++ [LF] ∧ s.start = false then some { s with crt := [], start := true }
    else if strg = endCertificate ++ [LF] ∧ s.start = true then
      let crt := s.crt ++ (strg ++ [LF])
      (x.loadPem crt).map fun certificate =>
        ⟨crt, s.count + 1, false, s.certificates ++ [certificate]⟩
    else some s
  if s.start then return { s with crt := s.crt ++ strg } else return s

/-- `add_from_pem` for a bundle that has no certificates yet. -/
def addFromPem (crtStr : Bytes) : Option (List Certificate) := do
  let s ← Transitions.run (scan x) ⟨[], 0, false, []⟩ (splitlines crtStr)
  if s.count = 0 then none else return s.certificates

/-! ### Writing the bundle -/

/-- `struct.pack('>H', n)` -/
def packH (n : Nat) : Option Bytes := if n < 2 ^ 16 then some (Endian.big 2 n) else none

def packCertificate (crt : Certificate) : Option Bytes := do
  let nameLen ← packH (x.subject crt).length
  let keyLen ← packH (x.publicKey crt).length
  return nameLen ++ keyLen ++ x.subject crt ++ x.publicKey crt

/-- `sorted(..., key=...)` by the names of the subjects -/
def sortedBySubject (certificates : List Certificate) : List Certificate :=
  certificates.insertionSort fun a b => x.subject a ≤ x.subject b

def createBundle (certificates : List Certificate) : Option Bytes := do
  let certificates := sortedBySubject x certificates
  let count ← packH certificates.length
  let bundle ← certificates.mapM (packCertificate x)
  return count ++ bundle.flatten

/-- `",".join([str(int(b)) for b in crt_bundle])` -/
def joinNumbers (bundle : Bytes) : Bytes := [44].intercalate (bundle.map fun b => toDecimal b.toNat)

/-- What the script writes between the braces of `certs_bundle`. -/
def certsBundle (file : Bytes) : Option Bytes := do
  let certificates ← addFromPem x (universalNewlines file)
  let bundle ← createBundle x certificates
  return joinNumbers bundle

/-! ### Lines -/

/-- What ends a line. -/
def boundaries : List Bytes :=
  [[10], [11], [12], [13], [28], [29], [30], [0xC2, 0x85], [0xE2, 0x80, 0xA8], [0xE2, 0x80, 0xA9]]

/-- A text that is no more than one line. -/
def Inline (line : Bytes) : Prop := ∀ s ∈ boundaries, ¬ s <:+: line

instance (line : Bytes) : Decidable (Inline line) := inferInstanceAs (Decidable (∀ s ∈ boundaries, ¬ s <:+: line))

/-- The boundaries of more than one byte. -/
def wide : List Bytes := [[0xC2, 0x85], [0xE2, 0x80, 0xA8], [0xE2, 0x80, 0xA9]]

/-- A byte that is not the beginning of a longer boundary. -/
theorem splitlinesFrom_byte {b : UInt8} {s : Bytes} (hb : b ≠ 13) (h : ∀ t ∈ wide, ¬ t <+: b :: s) (current : Bytes) :
    splitlinesFrom current (b :: s) =
      if (10 ≤ b ∧ b ≤ 13) ∨ (28 ≤ b ∧ b ≤ 30) then (current ++ [b]) :: splitlinesFrom [] s
      else splitlinesFrom (current ++ [b]) s := by
  have hno : ∀ t rest, t ∈ wide → b :: s ≠ t ++ rest := fun t rest ht heq => h t ht ⟨rest, heq.symm⟩
  rw [splitlinesFrom.eq_def]
  split
  · contradiction
  · rename_i heq
    exact absurd (List.cons.inj heq).1 hb
  · rename_i rest heq
    exact absurd heq (hno [0xC2, 0x85] rest (by decide))
  · rename_i rest heq
    exact absurd heq (hno [0xE2, 0x80, 0xA8] rest (by decide))
  · rename_i rest heq
    exact absurd heq (hno [0xE2, 0x80, 0xA9] rest (by decide))
  · rename_i heq
    obtain ⟨rfl, rfl⟩ := List.cons.inj heq
    rfl

theorem Inline.tail {b : UInt8} {line : Bytes} (h : Inline (b :: line)) : Inline line :=
  fun s hs hinside => h s hs (hinside.trans (List.suffix_cons b line).isInfix)

theorem splitlinesFrom_line {line : Bytes} (h : Inline line) (current rest : Bytes) :
    splitlinesFrom current (line ++ LF :: rest) = (current ++ (line ++ [LF])) :: splitlinesFrom [] rest := by
  induction line generalizing current with
  | nil =>
    have hwide : ∀ t ∈ wide, ¬ t <+: LF :: rest := by
      simp only [wide, List.forall_mem_cons, List.cons_prefix_cons]
      exact ⟨fun hp => absurd hp.1 (by decide), fun hp => absurd hp.1 (by decide), fun hp => absurd hp.1 (by decide),
        List.forall_mem_nil _⟩
    rw [List.nil_append, splitlinesFrom_byte (by decide) hwide, if_pos (by decide), List.nil_append]
  | cons b line ih =>
    have hsingle : ∀ c : UInt8, [c] ∈ boundaries → b ≠ c := by
      rintro c hc rfl
      exact h [b] hc ⟨[], line, rfl⟩
    have hb : b ≠ 13 := hsingle 13 (by decide)
    have hwide : ∀ t ∈ wide, ¬ t <+: b :: (line ++ LF :: rest) := by
      intro t ht hbegins
      have hboundary : t ∈ boundaries ∧ LF ∉ t := by
        have hall : ∀ t ∈ wide, t ∈ boundaries ∧ LF ∉ t := by decide
        exact hall t ht
      rcases List.prefix_or_prefix_of_prefix hbegins (List.prefix_append (b :: line) (LF :: rest)) with hle | ⟨u, rfl⟩
      · exact h t hboundary.1 hle.isInfix
      · -- then the boundary goes on with the line feed, or is the line
        cases u with
        | nil => exact h _ hboundary.1 (by rw [List.append_nil])
        | cons c u =>
          have hnext := (List.cons_prefix_cons.1 ((List.prefix_append_right_inj (b :: line)).1 hbegins)).1
          exact hboundary.2 (List.mem_append_right _ (hnext ▸ List.mem_cons_self))
    have hend : ¬ ((10 ≤ b ∧ b ≤ 13) ∨ (28 ≤ b ∧ b ≤ 30)) := by
      have h10 := hsingle 10 (by decide)
      have h11 := hsingle 11 (by decide)
      have h12 := hsingle 12 (by decide)
      have h28 := hsingle 28 (by decide)
      have h29 := hsingle 29 (by decide)
      have h30 := hsingle 30 (by decide)
      rw [Ne, ← UInt8.toNat_inj] at h10 h11 h12 h28 h29 h30 hb
      simp only [UInt8.le_iff_toNat_le, UInt8.reduceToNat] at h10 h11 h12 h28 h29 h30 hb ⊢
      omega
    rw [List.cons_append, splitlinesFrom_byte hb hwide, if_neg hend, ih h.tail, List.append_assoc]
    rfl

/-- A file that was written line by line is read line by line. -/
theorem splitlines_printed {lines : List Bytes} (h : ∀ line ∈ lines, Inline line) :
    splitlines (printed lines) = lines.map fun line => line ++ [LF] := by
  unfold splitlines
  induction lines with
  | nil => rfl
  | cons line lines ih =>
    obtain ⟨hline, hlines⟩ := List.forall_mem_cons.1 h
    have hprinted : printed (line :: lines) = line ++ LF :: printed lines := by simp [printed]
    rw [hprinted, splitlinesFrom_line hline, ih hlines, List.nil_append, List.map_cons]

/-! ### Certificates in a text -/

/-- The first line of a certificate, with its end. -/
def firstLine : Bytes := beginCertificate ++ [LF]

def lastLine : Bytes := endCertificate ++ [LF]

/-- What stands between such lines. -/
def blocks (text : Bytes) : List (List Bytes) := Delimited.blocks firstLine lastLine (splitlines text)

/-- The text that is loaded as a certificate: a line feed more than there is. -/
def pemText (body : List Bytes) : Bytes := firstLine ++ body.flatten ++ (lastLine ++ [LF])

section Scan

variable {x} {crt : Bytes} {count : Nat} {certificates : List Certificate} {line : Bytes}

theorem scan_outside (h : line ≠ firstLine) :
    scan x ⟨crt, count, false, certificates⟩ line = some ⟨crt, count, false, certificates⟩ := by
  unfold scan
  rw [if_neg fun hc => h hc.1, if_neg fun hc => Bool.false_ne_true hc.2]
  rfl

theorem scan_first :
    scan x ⟨crt, count, false, certificates⟩ firstLine = some ⟨firstLine, count, true, certificates⟩ := by
  unfold scan
  rw [if_pos ⟨rfl, rfl⟩]
  rfl

theorem scan_inside (h : line ≠ lastLine) :
    scan x ⟨crt, count, true, certificates⟩ line = some ⟨crt ++ line, count, true, certificates⟩ := by
  unfold scan
  rw [if_neg fun hc => Bool.false_ne_true hc.2.symm, if_neg fun hc => h hc.1]
  rfl

theorem scan_last : scan x ⟨crt, count, true, certificates⟩ lastLine =
    (x.loadPem (crt ++ (lastLine ++ [LF]))).map fun certificate =>
      ⟨crt ++ (lastLine ++ [LF]), count + 1, false, certificates ++ [certificate]⟩ := by
  have hfirst : lastLine ≠ beginCertificate ++ [LF] := by decide
  unfold scan
  rw [if_neg fun hc => hfirst hc.1, if_pos ⟨rfl, rfl⟩]
  dsimp only
  cases x.loadPem (crt ++ (lastLine ++ [LF])) <;> rfl

/-- The variables outside of a certificate, and inside of one that begins with the lines. -/
def scanning (crt : Bytes) (count : Nat) (certificates : List Certificate) : Option (List Bytes) → Scan Certificate
  | none => ⟨crt, count, false, certificates⟩
  | some body => ⟨firstLine ++ body.flatten, count, true, certificates⟩

theorem run_scan (lines : List Bytes) (start : Option (List Bytes)) (crt : Bytes) (count : Nat)
    (certificates : List Certificate) :
    ∃ last inside, Transitions.run (scan x) (scanning crt count certificates start) lines =
      ((Delimited.blocksFrom firstLine lastLine start lines).mapM fun body => x.loadPem (pemText body)).map fun loaded =>
        ⟨last, count + loaded.length, inside, certificates ++ loaded⟩ := by
  induction lines generalizing start crt count certificates with
  | nil =>
    have hblocks : Delimited.blocksFrom firstLine lastLine start [] = [] := by cases start <;> rfl
    rw [hblocks, Transitions.run_nil, List.mapM_nil]
    cases start with
    | none => exact ⟨crt, false, by simp [scanning]⟩
    | some body => exact ⟨firstLine ++ body.flatten, true, by simp [scanning]⟩
  | cons line lines ih =>
    cases start with
    | none =>
      rw [scanning, Delimited.blocksFrom]
      by_cases hline : line = firstLine
      · rw [if_pos hline, hline, Transitions.run_cons_some scan_first]
        simpa [scanning] using ih (some []) crt count certificates
      · rw [if_neg hline, Transitions.run_cons_some (scan_outside hline)]
        exact ih none crt count certificates
    | some body =>
      rw [scanning, Delimited.blocksFrom]
      by_cases hline : line = lastLine
      · -- the certificate is whole, and the scan goes on if it can be loaded
        rw [if_pos hline, hline, Transitions.run_cons, scan_last, List.mapM_cons]
        show ∃ last inside, ((x.loadPem (pemText body)).map _).bind _ = _
        cases x.loadPem (pemText body) with
        | none => exact ⟨[], false, rfl⟩
        | some certificate =>
          obtain ⟨last, inside, hrest⟩ := ih none (pemText body) (count + 1) (certificates ++ [certificate])
          refine ⟨last, inside, ?_⟩
          rw [scanning] at hrest
          rw [Option.map_some, Option.bind_some]
          refine hrest.trans ?_
          cases (Delimited.blocksFrom firstLine lastLine none lines).mapM fun body => x.loadPem (pemText body) with
          | none => rfl
          | some loaded => simp [Nat.add_assoc, Nat.add_comm 1]
      · rw [if_neg hline, Transitions.run_cons_some (scan_inside hline)]
        simpa [scanning] using ih (some (body ++ [line])) crt count certificates

theorem eq_nil_of_mapM {α β : Type} {f : α → Option β} {l : List α} (h : l.mapM f = some []) : l = [] := by
  cases l with
  | nil => rfl
  | cons a l =>
    rw [List.mapM_cons, Option.bind_eq_bind, Option.bind_eq_some_iff] at h
    obtain ⟨b, -, h⟩ := h
    rw [Option.bind_eq_bind, Option.bind_eq_some_iff] at h
    obtain ⟨others, -, h⟩ := h
    cases h

/-- The certificates of a text are its blocks.  A text without one is not accepted. -/
theorem addFromPem_eq (text : Bytes) : addFromPem x text =
    if blocks text = [] then none else (blocks text).mapM fun body => x.loadPem (pemText body) := by
  obtain ⟨last, inside, hrun⟩ := run_scan (x := x) (splitlines text) none [] 0 []
  rw [scanning] at hrun
  unfold addFromPem
  rw [hrun]
  show _ = if blocks text = [] then none else (blocks text).mapM _
  unfold blocks Delimited.blocks
  cases Delimited.blocksFrom firstLine lastLine none (splitlines text) with
  | nil => rfl
  | cons body bodies =>
    rw [if_neg (List.cons_ne_nil _ _)]
    cases hloaded : (body :: bodies).mapM fun body => x.loadPem (pemText body) with
    | none => rfl
    | some loaded =>
      have hlength : loaded.length ≠ 0 := by
        rw [Ne, List.length_eq_zero_iff]
        rintro rfl
        exact List.cons_ne_nil body bodies (eq_nil_of_mapM hloaded)
      show (if 0 + loaded.length = 0 then none else some ([] ++ loaded)) = _
      rw [Nat.zero_add, if_neg hlength, List.nil_append]

end Scan

/-! ### The format of the bundle -/

/-- A record: both lengths, the name and the key. -/
def readRecord : Records.Reader UInt8 (Bytes × Bytes) := fun s => do
  let (nameLen, s) ← Records.number 2 s
  let (keyLen, s) ← Records.number 2 s
  let (name, s) ← Records.cells nameLen s
  let (key, s) ← Records.cells keyLen s
  return ((name, key), s)

/-- The number of certificates, and their records up to the end. -/
def readBundle (s : Bytes) : Option (List (Bytes × Bytes)) := do
  let (count, s) ← Records.number 2 s
  let (entries, s) ← Records.many readRecord count s
  if s.isEmpty then return entries else none

/-- A decimal literal that fits in a byte. -/
def element (literal : Bytes) : Option UInt8 :=
  if literal.head?.any (· ≠ 48) ∨ literal = [48] then
    if literal.all isDigit ∧ digitsValue literal < 256 then some (digitsValue literal).toUInt8 else none
  else none

/-- The elements of the array, from what stands between its braces. -/
def elements (braces : Bytes) : Option Bytes := (braces.splitOn 44).mapM element

/-- What the bundle keeps of a certificate. -/
def kept (crt : Certificate) : Bytes × Bytes := (x.subject crt, x.publicKey crt)

/-- The format has two bytes for each length. -/
def Fits (entry : Bytes × Bytes) : Prop := entry.1.length < 2 ^ 16 ∧ entry.2.length < 2 ^ 16

instance (entry : Bytes × Bytes) : Decidable (Fits entry) :=
  inferInstanceAs (Decidable (entry.1.length < 2 ^ 16 ∧ entry.2.length < 2 ^ 16))

/-- It has two for the number of certificates too. -/
def Packable (certificates : List Certificate) : Prop :=
  certificates.length < 2 ^ 16 ∧ ∀ crt ∈ certificates, Fits (kept x crt)

def record (entry : Bytes × Bytes) : Bytes :=
  Endian.big 2 entry.1.length ++ Endian.big 2 entry.2.length ++ entry.1 ++ entry.2

theorem reads_record {entry : Bytes × Bytes} (h : Fits entry) : Records.Reads readRecord record entry := by
  intro rest
  obtain ⟨name, key⟩ := entry
  unfold readRecord record
  rw [List.append_assoc, List.append_assoc, List.append_assoc, Records.number_big h.1]
  simp only [Option.bind_eq_bind, Option.bind_some]
  rw [Records.number_big h.2]
  simp only [Option.bind_some]
  rw [Records.cells_append]
  simp only [Option.bind_some]
  rw [Records.cells_append]
  rfl

theorem element_toDecimal : ∀ n < 256, element (toDecimal n) = some n.toUInt8 := by decide +kernel

/-- The array is the bundle. -/
theorem elements_joinNumbers {bundle : Bytes} (h : bundle ≠ []) : elements (joinNumbers bundle) = some bundle := by
  have hcomma : ∀ literal ∈ bundle.map fun b => toDecimal b.toNat, 44 ∉ literal := by
    intro literal hliteral hmem
    obtain ⟨b, -, rfl⟩ := List.mem_map.1 hliteral
    exact absurd (isDigit_toDecimal _ _ hmem) (by decide)
  rw [elements, joinNumbers, List.splitOn_intercalate 44 hcomma (by simpa using h)]
  clear h hcomma
  induction bundle with
  | nil => rfl
  | cons b bundle ih =>
    have hbyte : b.toNat.toUInt8 = b := UInt8.ofNat_toNat
    rw [List.map_cons, List.mapM_cons, element_toDecimal _ b.toNat_lt, ih, hbyte]
    rfl

section Bundle

variable {x} {certificates : List Certificate} {bundle : Bytes}

theorem packCertificate_eq (crt : Certificate) :
    packCertificate x crt = if Fits (kept x crt) then some (record (kept x crt)) else none := by
  unfold packCertificate packH
  by_cases hname : (x.subject crt).length < 2 ^ 16
  · by_cases hkey : (x.publicKey crt).length < 2 ^ 16
    · have hfits : Fits (kept x crt) := ⟨hname, hkey⟩
      rw [if_pos hname, if_pos hkey, if_pos hfits]
      rfl
    · have hfits : ¬ Fits (kept x crt) := fun h => hkey h.2
      rw [if_pos hname, if_neg hkey, if_neg hfits]
      rfl
  · have hfits : ¬ Fits (kept x crt) := fun h => hname h.1
    rw [if_neg hname, if_neg hfits]
    rfl

theorem mapM_packCertificate (certificates : List Certificate) :
    certificates.mapM (packCertificate x) =
      if ∀ crt ∈ certificates, Fits (kept x crt) then some (certificates.map fun crt => record (kept x crt)) else none := by
  induction certificates with
  | nil => rfl
  | cons crt certificates ih =>
    have hcons := List.forall_mem_cons (a := crt) (l := certificates) (p := fun crt => Fits (kept x crt))
    rw [List.mapM_cons, packCertificate_eq, ih]
    by_cases hcrt : Fits (kept x crt)
    · by_cases hothers : ∀ crt ∈ certificates, Fits (kept x crt)
      · rw [if_pos hcrt, if_pos hothers, if_pos (hcons.2 ⟨hcrt, hothers⟩)]
        rfl
      · rw [if_pos hcrt, if_neg hothers, if_neg fun h => hothers (hcons.1 h).2]
        rfl
    · rw [if_neg hcrt, if_neg fun h => hcrt (hcons.1 h).1]
      rfl

theorem perm_sortedBySubject (certificates : List Certificate) : (sortedBySubject x certificates).Perm certificates :=
  List.perm_insertionSort _ certificates

theorem pairwise_sortedBySubject (certificates : List Certificate) :
    (sortedBySubject x certificates).Pairwise fun a b => x.subject a ≤ x.subject b := by
  have htotal : Std.Total fun a b : Certificate => x.subject a ≤ x.subject b := ⟨fun a b => List.le_total _ _⟩
  have htrans : IsTrans Certificate fun a b => x.subject a ≤ x.subject b := ⟨fun a b c => List.le_trans⟩
  exact List.pairwise_insertionSort _ certificates

theorem createBundle_eq_some_iff : createBundle x certificates = some bundle ↔
    Packable x certificates ∧
      bundle = Endian.big 2 certificates.length ++ ((sortedBySubject x certificates).map (kept x)).flatMap record := by
  have hperm := perm_sortedBySubject (x := x) certificates
  have hlength := hperm.length_eq
  have hfits : (∀ crt ∈ sortedBySubject x certificates, Fits (kept x crt)) ↔ ∀ crt ∈ certificates, Fits (kept x crt) := by
    simp only [hperm.mem_iff]
  unfold createBundle packH Packable
  dsimp only
  rw [hlength, mapM_packCertificate]
  by_cases hcount : certificates.length < 2 ^ 16
  · by_cases hall : ∀ crt ∈ certificates, Fits (kept x crt)
    · rw [if_pos hcount, if_pos (hfits.2 hall), List.flatMap_map]
      show some (_ ++ (List.map _ _).flatten) = some bundle ↔ _
      rw [Option.some_inj, ← List.flatMap_def]
      exact ⟨fun h => ⟨⟨hcount, hall⟩, h.symm⟩, fun h => h.2.symm⟩
    · rw [if_pos hcount, if_neg fun h => hall (hfits.1 h)]
      exact ⟨fun h => (by cases h), fun h => absurd h.1.2 hall⟩
  · rw [if_neg hcount]
    exact ⟨fun h => (by cases h), fun h => absurd h.1.1 hcount⟩

theorem readBundle_createBundle (h : createBundle x certificates = some bundle) :
    (elements (joinNumbers bundle)).bind readBundle = some ((sortedBySubject x certificates).map (kept x)) := by
  obtain ⟨⟨hcount, hfits⟩, rfl⟩ := createBundle_eq_some_iff.1 h
  have hperm := perm_sortedBySubject (x := x) certificates
  have hreads : ∀ entry ∈ (sortedBySubject x certificates).map (kept x), Records.Reads readRecord record entry := by
    intro entry hentry
    obtain ⟨crt, hcrt, rfl⟩ := List.mem_map.1 hentry
    exact reads_record (hfits crt (hperm.mem_iff.1 hcrt))
  have hmany := Records.many_flatMap hreads []
  rw [List.append_nil, List.length_map, hperm.length_eq] at hmany
  have hne : Endian.big 2 certificates.length ++ ((sortedBySubject x certificates).map (kept x)).flatMap record ≠ [] := by
    intro hnil
    have hlength := congrArg List.length (List.append_eq_nil_iff.1 hnil).1
    rw [Endian.length_big] at hlength
    contradiction
  rw [elements_joinNumbers hne, Option.bind_some, readBundle, Records.number_big hcount, Option.bind_eq_bind,
    Option.bind_some]
  dsimp only
  rw [hmany]
  rfl

end Bundle

/-! ### The array -/

/-- The array reads back as what is kept of the certificates, in the order of the names. -/
def Lists (array : Bytes) (certificates : List Certificate) : Prop :=
  ∃ entries, (elements array).bind readBundle = some entries ∧ entries.Perm (certificates.map (kept x)) ∧
    entries.Pairwise fun a b => a.1 ≤ b.1

/-- There is an array if there are certificates and the format can hold them, and then it lists them. -/
def Holds (array : Option Bytes) (certificates : Option (List Certificate)) : Prop :=
  (array.isSome = true ↔ ∃ l, certificates = some l ∧ l ≠ [] ∧ Packable x l) ∧
    ∀ a, array = some a → ∃ l, certificates = some l ∧ Lists x a l

section Array

variable {x}

theorem lists_createBundle {certificates : List Certificate} {bundle : Bytes} (h : createBundle x certificates = some bundle) :
    Lists x (joinNumbers bundle) certificates := by
  refine ⟨_, readBundle_createBundle h, (perm_sortedBySubject certificates).map _, ?_⟩
  exact List.pairwise_map.2 (pairwise_sortedBySubject certificates)

theorem certsBundle_eq_some_iff {file array : Bytes} : certsBundle x file = some array ↔
    ∃ certificates bundle, ((blocks (universalNewlines file)).mapM fun body => x.loadPem (pemText body)) = some certificates ∧
      certificates ≠ [] ∧ createBundle x certificates = some bundle ∧ joinNumbers bundle = array := by
  unfold certsBundle
  rw [addFromPem_eq]
  constructor
  · intro h
    obtain ⟨certificates, hload, h⟩ := Option.bind_eq_some_iff.1 h
    obtain ⟨bundle, hbundle, h⟩ := Option.bind_eq_some_iff.1 h
    split at hload
    · cases hload
    · rename_i hblocks
      refine ⟨certificates, bundle, hload, ?_, hbundle, Option.some.inj h⟩
      rintro rfl
      exact hblocks (eq_nil_of_mapM hload)
  · rintro ⟨certificates, bundle, hload, hne, hbundle, rfl⟩
    have hblocks : blocks (universalNewlines file) ≠ [] := by
      intro hnil
      rw [hnil] at hload
      exact hne (Option.some.inj hload).symm
    rw [if_neg hblocks, hload, Option.bind_eq_bind, Option.bind_some, hbundle]
    rfl

theorem holds_certsBundle (file : Bytes) : Holds x (certsBundle x file)
    ((blocks (universalNewlines file)).mapM fun body => x.loadPem (pemText body)) := by
  constructor
  · rw [Option.isSome_iff_exists]
    constructor
    · rintro ⟨array, harray⟩
      obtain ⟨certificates, bundle, hload, hne, hbundle, -⟩ := certsBundle_eq_some_iff.1 harray
      exact ⟨certificates, hload, hne, (createBundle_eq_some_iff.1 hbundle).1⟩
    · rintro ⟨certificates, hload, hne, hpackable⟩
      exact ⟨_, certsBundle_eq_some_iff.2 ⟨certificates, _, hload, hne, createBundle_eq_some_iff.2 ⟨hpackable, rfl⟩, rfl⟩⟩
  · intro array harray
    obtain ⟨certificates, bundle, hload, -, hbundle, rfl⟩ := certsBundle_eq_some_iff.1 harray
    exact ⟨certificates, hload, lists_createBundle hbundle⟩

end Array

/-- The array holds exactly the certificates of the file, and each one is in lines of the file between a first and a last
line. -/
theorem certsBundle_file (file : Bytes) :
    Holds x (certsBundle x file) ((blocks (universalNewlines file)).mapM fun body => x.loadPem (pemText body)) ∧
      ∀ body ∈ blocks (universalNewlines file), firstLine :: (body ++ [lastLine]) <:+: splitlines (universalNewlines file) :=
  ⟨holds_certsBundle file, fun _ hbody => Delimited.infix_of_mem_blocks hbody⟩

/-! ### The array of a file of roots -/

theorem inline_of_bytes {line : Bytes} (h : ∀ b ∈ line, 31 ≤ b ∧ b ≤ 127) : Inline line := by
  have hall : ∀ s ∈ boundaries, ∃ b ∈ s, ¬ (31 ≤ b ∧ b ≤ 127) := by decide
  intro s hs hinside
  obtain ⟨b, hb, hno⟩ := hall s hs
  exact hno (h b (hinside.subset hb))

theorem blocks_printed {lines : List Bytes} (h : ∀ line ∈ lines, Inline line) :
    blocks (universalNewlines (printed lines)) = (pemBlocks lines).map (List.map fun line => line ++ [LF]) := by
  have hcr : CR ∉ printed lines := by
    intro hmem
    obtain ⟨line, hline, hmem⟩ := List.mem_flatMap.1 hmem
    rcases List.mem_append.1 hmem with hmem | hmem
    · obtain ⟨s, t, rfl⟩ := List.append_of_mem hmem
      exact h _ hline [CR] (by decide) ⟨s, t, by simp⟩
    · exact absurd hmem (by decide)
  rw [universalNewlines_eq hcr, blocks, splitlines_printed h]
  exact Delimited.blocks_map (List.append_left_injective [LF]) lines

theorem inline_entry {caname : Bytes} (h : Inline caname) (count : Nat) (data : Bytes) :
    ∀ line ∈ entry caname count data, Inline line := by
  have hends : Inline [] ∧ Inline beginCertificate ∧ Inline endCertificate := by decide
  have hline : Inline (List.replicate count 61) := by
    refine inline_of_bytes fun b hb => ?_
    rw [List.eq_of_mem_replicate hb]
    decide
  have hbody : ∀ line ∈ Lines.wrap width (Base64.encode data), Inline line := by
    refine fun line hline => inline_of_bytes fun b hb => ?_
    obtain ⟨-, -, hlow, hhigh⟩ := Base64.mem_encode data b (Lines.mem_of_mem_wrap hline hb)
    rw [UInt8.le_iff_toNat_le] at hlow hhigh
    simp only [UInt8.le_iff_toNat_le, UInt8.reduceToNat] at hlow hhigh ⊢
    omega
  simp only [entry, pem, List.forall_mem_cons, List.forall_mem_append]
  exact ⟨hends.1, h, hline, hends.2.1, hbody, hends.2.2, List.forall_mem_nil _⟩

theorem pemText_pem (data : Bytes) :
    pemText ((Lines.wrap width (Base64.encode data)).map fun line => line ++ [LF]) = printed (pem data) ++ [LF] := by
  simp [pemText, printed, pem, firstLine, lastLine, List.flatMap_def]

/-- A certificate of the name `A`. -/
def smallCertificate : Bytes :=
  (Base64.decode (ascii "MIG+MHICAQEwBQYDK2VwMAwxCjAIBgNVBAMMAUEwHhcNMjYxMTIwMDczOTI3WhcNMzYxMTE3MDczOTI3WjAMMQowCAYDVQQDDAFB" ++
    ascii "MCowBQYDK2VwAyEA6ftLKi/6nNWJI4BgFSdXBOgRkfgSlRSpIxLezMZ/GLUwBQYDK2VwA0EA50Cjl+yHooYN9dcoBITWOM9AahGF" ++
    ascii "ziuSc+NIvixGQmywQjBm5n5EuJxHlc6bymUUxck7Q1qfgT3kDgTtZvPSAw==")).getD []

/-- What the package says of it. -/
def smallX509 : X509 Unit where
  loadPem text := if text = printed (pem smallCertificate) ++ [LF] then some () else none
  subject _ := (smallCertificate.drop 61).take 14
  publicKey _ := (smallCertificate.drop 75).take 44

end IopHal.Esp32
