import IopHal.Certificates.CaBundle
import IopHal.Library.Delimited

/-!
# The roots of a file

`certdata.txt` has two objects for each root, its certificate and what it is trusted for, with comments in front of both.
`Root` is such a pair with whatever lines stand around those that `mk-ca-bundle.pl` looks for.  The bundle of a file of
roots has exactly those that are trusted to name servers and not past the date of the comment in front of their trust object
(`bundle_roots`).  A date from which on servers are to distrust a root does nothing.
-/

namespace IopHal.CaBundle

open Transitions

/-! ### Octal texts -/

/-- The three octal digits of a byte. -/
def digits (b : UInt8) : Bytes := [.ofNat (48 + b.toNat / 64), .ofNat (48 + b.toNat / 8 % 8), .ofNat (48 + b.toNat % 8)]

/-- A line of a value: a backslash before each byte -/
def octalLine (part : Bytes) : Bytes := part.flatMap fun b => 92 :: digits b

theorem oct_digits (b : UInt8) : oct (digits b) = b.toNat := by
  have hall : ∀ x < 8, ∀ y < 8, ∀ z < 8,
      oct [UInt8.ofNat (48 + x), UInt8.ofNat (48 + y), UInt8.ofNat (48 + z)] = 64 * x + 8 * y + z := by decide
  have hb := b.toNat_lt
  have hvalue : b.toNat = 64 * (b.toNat / 64) + 8 * (b.toNat / 8 % 8) + b.toNat % 8 := by omega
  rw [digits, hall _ (by omega) _ (by omega) _ (by omega), ← hvalue]

theorem not_mem_digits (b : UInt8) : 92 ∉ digits b := by
  have hall : ∀ x < 8, UInt8.ofNat (48 + x) ≠ 92 := by decide
  have hb := b.toNat_lt
  simp only [digits, List.mem_cons, List.not_mem_nil, or_false, not_or]
  exact ⟨(hall _ (by omega)).symm, (hall _ (by omega)).symm, (hall _ (by omega)).symm⟩

theorem splitOn_octalLine {first : Bytes} (hfirst : 92 ∉ first) (part : Bytes) :
    (first ++ octalLine part).splitOn 92 = first :: part.map digits := by
  induction part generalizing first with
  | nil =>
    rw [octalLine, List.flatMap_nil, List.append_nil]
    exact List.splitOn_eq_singleton hfirst
  | cons b part ih =>
    show (first ++ 92 :: (digits b ++ octalLine part)).splitOn 92 = _
    rw [List.splitOn_append_cons_self_of_not_mem hfirst, ih (not_mem_digits b), List.map_cons]

theorem octets_octalLine (part : Bytes) : octets (octalLine part) = part.map UInt8.toNat := by
  have hsplit := splitOn_octalLine List.not_mem_nil part
  rw [List.nil_append] at hsplit
  unfold octets
  rw [hsplit]
  rcases List.eq_nil_or_concat part with rfl | ⟨front, last, rfl⟩
  · rfl
  · have hfields : ([] : Bytes) :: (front.concat last).map digits = ([] :: front.map digits) ++ [digits last] := by simp
    rw [hfields, List.rdropWhile_concat_neg _ _ _ Bool.false_ne_true, ← hfields, List.tail_cons, List.map_map]
    exact List.map_congr_left fun b _ => oct_digits b

/-- The lines of a value begin with a backslash, if there is something in them. -/
theorem not_begins_octalLine (part : Bytes) : begins "END" (octalLine part) = false := by
  cases part <;> rfl

/-! ### Which pattern matches -/

theorem begins_self (text : String) (rest : Bytes) : begins text (ascii text ++ rest) = true :=
  List.isPrefixOf_iff_prefix.2 (List.prefix_append _ _)

theorem behind_self (text : String) (rest : Bytes) : behind text (ascii text ++ rest) = some rest := by
  rw [behind, begins_self, if_pos rfl, List.drop_left]

theorem behind_eq_none {text : String} {line : Bytes} (h : begins text line = false) : behind text line = none := by
  rw [behind, h, if_neg Bool.false_ne_true]

/-- What a line has to be free of, to be read as what it is. -/
def unlicensed (line : Bytes) : Bool := !contains "***** BEGIN LICENSE BLOCK *****" line

section Lines

variable {p : Perl} {s : State} {line : Bytes}

/-- An attribute of an object. -/
theorem body_record (hline : begins "CKA_" line = true) (hfree : unlicensed line = true) :
    body p s line = some (record s line) := by
  have hstamp : begins "# Not Valid After : " line = false := begins_exclusive hline 1 (by decide)
  have hcomment : begins "#" line = false := begins_exclusive hline 1 (by decide)
  have hblank : line.all isspace = false := by
    obtain ⟨rest, rfl⟩ := List.isPrefixOf_iff_prefix.1 hline
    rfl
  rw [body, if_neg (by simpa [unlicensed] using hfree), behind_eq_none hstamp]
  simp only [hcomment, hblank, Bool.or_self, Bool.false_eq_true, if_false]

theorem step_body (hs : s.reading = .body) (line : Bytes) : step p s line = body p s line := by
  rw [step, hs]

theorem step_certificate (hs : s.reading = .body) :
    step p s (ascii "CKA_CLASS CK_OBJECT_CLASS CKO_CERTIFICATE") = some { s with startOfCert := true } := by
  rw [step_body hs, body_record (by decide) (by decide)]
  rfl

def labelLine (label : Bytes) : Bytes := ascii "CKA_LABEL UTF8 \"" ++ (label ++ [34])

theorem labelOf_labelLine (label : Bytes) : labelOf (labelLine label) = some label := by
  have hquote : (34 : UInt8) ∈ label ++ [34] := List.mem_append_right _ (List.mem_singleton_self _)
  have hlast : (label ++ [34]).rdropWhile (· ≠ 34) = label ++ [34] := List.rdropWhile_concat_neg _ _ _ (by decide)
  rw [labelOf, labelLine, behind_self]
  dsimp only
  rw [if_pos hquote, hlast, List.dropLast_concat]

theorem record_label (hline : begins "CKA_LABEL UTF8 \"" line = true) (s : State) :
    record s line = if s.startOfCert && (labelOf line).isSome then { s with caname := (labelOf line).getD [] } else s := by
  have hoff : begins "CKA_NSS_SERVER_DISTRUST_AFTER CK_BBOOL CK_FALSE" line = false := begins_exclusive hline 5 (by decide)
  have hon : begins "CKA_NSS_SERVER_DISTRUST_AFTER MULTILINE_OCTAL" line = false := begins_exclusive hline 5 (by decide)
  have hcertificate : begins "CKA_CLASS CK_OBJECT_CLASS CKO_CERTIFICATE" line = false := begins_exclusive hline 5 (by decide)
  have hvalue : begins "CKA_VALUE MULTILINE_OCTAL" line = false := begins_exclusive hline 5 (by decide)
  have htrust : begins "CKA_CLASS CK_OBJECT_CLASS CKO_NSS_TRUST" line = false := begins_exclusive hline 5 (by decide)
  rw [record]
  simp only [hoff, hon, hcertificate, hvalue, htrust, Bool.false_eq_true, if_false, Bool.and_false, Bool.false_and]

theorem begins_CKA (h : begins "CKA_LABEL UTF8 \"" line = true) : begins "CKA_" line = true := by
  obtain ⟨rest, rfl⟩ := List.isPrefixOf_iff_prefix.1 h
  exact List.isPrefixOf_iff_prefix.2 ⟨ascii "LABEL UTF8 \"" ++ rest, rfl⟩

theorem step_label (hs : s.reading = .body) {label : Bytes} (hfree : unlicensed (labelLine label) = true)
    (hstart : s.startOfCert = true) : step p s (labelLine label) = some { s with caname := label } := by
  have hline : begins "CKA_LABEL UTF8 \"" (labelLine label) = true := begins_self _ _
  rw [step_body hs, body_record (begins_CKA hline) hfree, record_label hline, labelOf_labelLine, hstart]
  rfl

/-- A label, which only counts behind the beginning of a certificate. -/
def Label (line : Bytes) : Prop := unlicensed line = true ∧ begins "CKA_LABEL UTF8 \"" line = true

theorem step_any_label (hs : s.reading = .body) (h : Label line) :
    ∃ caname, step p s line = some { s with caname := caname } := by
  rw [step_body hs, body_record (begins_CKA h.2) h.1, record_label h.2]
  split
  · exact ⟨_, rfl⟩
  · exact ⟨s.caname, rfl⟩

theorem step_value (hs : s.reading = .body) (hstart : s.startOfCert = true) :
    step p s (ascii "CKA_VALUE MULTILINE_OCTAL") = some { s with ckaValue := [], reading := .value } := by
  have hlabel : labelOf (ascii "CKA_VALUE MULTILINE_OCTAL") = none := by decide
  rw [step_body hs, body_record (by decide) (by decide), record, hstart, hlabel]
  rfl

theorem step_trust (hs : s.reading = .body) :
    step p s (ascii "CKA_CLASS CK_OBJECT_CLASS CKO_NSS_TRUST") =
      some (if s.valid then { s with reading := .trust [] } else s) := by
  have hlabel : labelOf (ascii "CKA_CLASS CK_OBJECT_CLASS CKO_NSS_TRUST") = none := by decide
  have hvalue : begins "CKA_VALUE MULTILINE_OCTAL" (ascii "CKA_CLASS CK_OBJECT_CLASS CKO_NSS_TRUST") = false := by decide
  rw [step_body hs, body_record (by decide) (by decide), record, hlabel, hvalue, Option.isSome_none, Bool.and_false]
  rfl

theorem step_distrust (hs : s.reading = .body) :
    step p s (ascii "CKA_NSS_SERVER_DISTRUST_AFTER MULTILINE_OCTAL") = some { s with reading := .distrust [] } := by
  rw [step_body hs, body_record (by decide) (by decide)]
  rfl

def stampLine (stamp : Bytes) : Bytes := ascii "# Not Valid After : " ++ stamp

theorem step_stamp (hs : s.reading = .body) {stamp : Bytes} {time : Int} (hfree : unlicensed (stampLine stamp) = true)
    (htime : p.strptime stamp = some time) :
    step p s (stampLine stamp) = some { s with valid := ¬ time - p.now < 0 } := by
  rw [step_body hs, body, if_neg (by simpa [unlicensed] using hfree), stampLine, behind_self]
  dsimp only
  rw [htime]
  rfl

/-! ### Lines that stand around them -/

/-- An attribute that the script does not look for. -/
def inert (line : Bytes) : Bool :=
  !begins "CKA_NSS_SERVER_DISTRUST_AFTER MULTILINE_OCTAL" line && !begins "CKA_CLASS CK_OBJECT_CLASS CKO_CERTIFICATE" line &&
    !begins "CKA_LABEL UTF8 \"" line && !begins "CKA_VALUE MULTILINE_OCTAL" line &&
    !begins "CKA_CLASS CK_OBJECT_CLASS CKO_NSS_TRUST" line

/-- A comment that is not looked at, a blank line or an inert one. -/
def quiet (line : Bytes) : Bool :=
  unlicensed line && !begins "# Not Valid After : " line && (begins "#" line || line.all isspace || inert line)

theorem record_inert (h : inert line = true) (s : State) : record s line = s := by
  simp only [inert, Bool.and_eq_true, Bool.not_eq_true'] at h
  obtain ⟨⟨⟨⟨hon, hcertificate⟩, hlabel⟩, hvalue⟩, htrust⟩ := h
  have hnone : labelOf line = none := by rw [labelOf, behind_eq_none hlabel]
  rw [record]
  simp only [hon, hcertificate, hvalue, htrust, hnone, Option.isSome_none, Bool.and_false, Bool.false_and,
    Bool.false_eq_true, if_false, ite_self]

theorem step_quiet (hs : s.reading = .body) (h : quiet line = true) : step p s line = some s := by
  simp only [quiet, Bool.and_eq_true, Bool.or_eq_true, Bool.not_eq_true'] at h
  obtain ⟨⟨hfree, hstamp⟩, hquiet⟩ := h
  rw [step_body hs, body, if_neg (by simpa [unlicensed] using hfree), behind_eq_none hstamp]
  dsimp only
  split
  · rfl
  · rename_i hattribute
    rw [record_inert (hquiet.resolve_left fun hcomment => hattribute (by simpa using hcomment))]

/-- A comment with a date. -/
def Dated (p : Perl) (line : Bytes) : Prop :=
  unlicensed line = true ∧ ∃ stamp time, line = stampLine stamp ∧ p.strptime stamp = some time

/-- Lines that can only change whether the root in front of them is valid. -/
def Neutral (p : Perl) (line : Bytes) : Prop := quiet line = true ∨ Dated p line

/-- Lines that can stand outside the objects of the roots: other objects have labels as well. -/
def Passive (p : Perl) (line : Bytes) : Prop := Neutral p line ∨ Label line

theorem step_neutral (hs : s.reading = .body) (h : Neutral p line) :
    ∃ valid, step p s line = some { s with valid := valid } := by
  rcases h with hquiet | ⟨hfree, stamp, time, rfl, htime⟩
  · exact ⟨s.valid, step_quiet hs hquiet⟩
  · exact ⟨_, step_stamp hs hfree htime⟩

theorem run_neutral {lines : List Bytes} (h : ∀ line ∈ lines, Neutral p line) (hs : s.reading = .body) :
    ∃ valid, run (step p) s lines = some { s with valid := valid } := by
  induction lines generalizing s with
  | nil => exact ⟨s.valid, rfl⟩
  | cons line lines ih =>
    obtain ⟨hline, hlines⟩ := List.forall_mem_cons.1 h
    obtain ⟨valid, hstep⟩ := step_neutral hs hline
    rw [run_cons_some hstep]
    exact ih hlines hs

theorem run_passive {lines : List Bytes} (h : ∀ line ∈ lines, Passive p line) (hs : s.reading = .body) :
    ∃ caname valid, run (step p) s lines = some { s with caname := caname, valid := valid } := by
  induction lines generalizing s with
  | nil => exact ⟨s.caname, s.valid, rfl⟩
  | cons line lines ih =>
    obtain ⟨hline, hlines⟩ := List.forall_mem_cons.1 h
    rcases hline with hneutral | hlabel
    · obtain ⟨valid, hstep⟩ := step_neutral hs hneutral
      rw [run_cons_some hstep]
      exact ih hlines hs
    · obtain ⟨caname, hstep⟩ := step_any_label hs hlabel
      rw [run_cons_some hstep]
      exact ih hlines hs

theorem run_quiet {lines : List Bytes} (h : ∀ line ∈ lines, quiet line = true) (hs : s.reading = .body) :
    run (step p) s lines = some s := by
  induction lines with
  | nil => rfl
  | cons line lines ih =>
    obtain ⟨hline, hlines⟩ := List.forall_mem_cons.1 h
    rw [run_cons_some (step_quiet hs hline), ih hlines]

/-- A line of a trust object. -/
def TrustLine (line : Bytes) : Prop := begins "#" line = false ∧ (quiet line = true ∨ Label line)

/-- A trust object that is passed over can only change the name. -/
theorem run_passed {trusts : List Bytes} (h : ∀ line ∈ trusts, TrustLine line) (hs : s.reading = .body) :
    ∃ caname, run (step p) s trusts = some { s with caname := caname } := by
  induction trusts generalizing s with
  | nil => exact ⟨s.caname, rfl⟩
  | cons line trusts ih =>
    obtain ⟨⟨-, hline⟩, htrusts⟩ := List.forall_mem_cons.1 h
    rcases hline with hquiet | hlabel
    · rw [run_cons_some (step_quiet hs hquiet)]
      exact ih htrusts hs
    · obtain ⟨caname, hstep⟩ := step_any_label hs hlabel
      rw [run_cons_some hstep]
      exact ih htrusts hs

/-- A trust object that is read. -/
theorem run_trusts {trusts : List Bytes} (h : ∀ line ∈ trusts, TrustLine line) {levels : List (Bytes × Bytes)}
    (hs : s.reading = .trust levels) :
    run (step p) s trusts = some { s with reading := .trust (levels ++ trusts.filterMap pushed) } := by
  induction trusts generalizing s levels with
  | nil =>
    rw [List.filterMap_nil, List.append_nil, ← hs]
    rfl
  | cons line trusts ih =>
    obtain ⟨⟨hline, -⟩, htrusts⟩ := List.forall_mem_cons.1 h
    have hstep : step p s line = some { s with reading := .trust (levels ++ (pushed line).toList) } := by
      rw [step, hs]
      dsimp only
      rw [hline, if_neg Bool.false_ne_true]
    rw [run_cons_some hstep, ih htrusts rfl, List.append_assoc]
    cases hpushed : pushed line with
    | none => rw [List.filterMap_cons_none hpushed]; rfl
    | some trust => rw [List.filterMap_cons_some hpushed]; rfl

/-- The lines of a value. -/
theorem run_value (hs : s.reading = .value) (parts : List Bytes) :
    run (step p) s (parts.map octalLine ++ [ascii "END"]) =
      some { s with reading := .body, ckaValue := s.ckaValue ++ parts.flatten.map UInt8.toNat } := by
  induction parts generalizing s with
  | nil =>
    have hend : step p s (ascii "END") = some { s with reading := .body } := by
      rw [step, hs]
      rfl
    show run (step p) s [ascii "END"] = _
    rw [run_cons_some hend, run_nil, List.flatten_nil, List.map_nil, List.append_nil]
  | cons part parts ih =>
    have hstep : step p s (octalLine part) = some { s with ckaValue := s.ckaValue ++ part.map UInt8.toNat } := by
      rw [step, hs]
      dsimp only
      rw [not_begins_octalLine, if_neg Bool.false_ne_true, octets_octalLine]
    have hrest := ih (s := { s with ckaValue := s.ckaValue ++ part.map UInt8.toNat }) hs
    rw [List.map_cons, List.cons_append, run_cons_some hstep, hrest, List.flatten_cons, List.map_append, List.append_assoc]

/-- The lines of a time stamp. -/
theorem run_timestamp {timestamp : List Nat} (hs : s.reading = .distrust timestamp) (parts : List Bytes) :
    run (step p) s (parts.map octalLine ++ [ascii "END"]) =
      distrusted p { s with reading := .body } (timestamp ++ parts.flatten.map UInt8.toNat) := by
  induction parts generalizing s timestamp with
  | nil =>
    have hend : step p s (ascii "END") = distrusted p { s with reading := .body } timestamp := by
      rw [step, hs]
      rfl
    show run (step p) s [ascii "END"] = _
    rw [run_cons, hend, List.flatten_nil, List.map_nil, List.append_nil]
    exact Option.bind_fun_some _
  | cons part parts ih =>
    have hstep : step p s (octalLine part) =
        some { s with reading := .distrust (timestamp ++ part.map UInt8.toNat) } := by
      rw [step, hs]
      dsimp only
      rw [not_begins_octalLine, if_neg Bool.false_ne_true, octets_octalLine]
    rw [List.map_cons, List.cons_append, run_cons_some hstep, ih rfl, List.flatten_cons, List.map_append, List.append_assoc]

end Lines

/-! ### Roots -/

/-- The two objects of a root, and the lines around what is looked for in them. -/
structure Root where
  /-- the lines up to the object of the certificate -/
  comments : List Bytes
  attributes : List Bytes
  label : Bytes
  details : List Bytes
  /-- the certificate, cut into lines -/
  value : List Bytes
  policies : List Bytes
  /-- the date from which on servers are to distrust it, cut into lines -/
  distrustAfter : Option (List Bytes)
  /-- the lines up to the date of its trust object -/
  description : List Bytes
  notAfter : Bytes
  fingerprints : List Bytes
  trusts : List Bytes
  /-- the comment behind the trust object -/
  closing : Bytes

namespace Root

def data (r : Root) : Bytes := r.value.flatten

def distrustLines (r : Root) : List Bytes :=
  match r.distrustAfter with
  | none => []
  | some timestamp => ascii "CKA_NSS_SERVER_DISTRUST_AFTER MULTILINE_OCTAL" :: (timestamp.map octalLine ++ [ascii "END"])

/-- The object of the certificate. -/
def certificateLines (r : Root) : List Bytes :=
  r.comments ++ ascii "CKA_CLASS CK_OBJECT_CLASS CKO_CERTIFICATE" :: (r.attributes ++ labelLine r.label :: (r.details ++
    ascii "CKA_VALUE MULTILINE_OCTAL" :: (r.value.map octalLine ++ [ascii "END"]))) ++ r.policies ++ r.distrustLines

/-- The trust object. -/
def trustLines (r : Root) : List Bytes :=
  r.description ++ stampLine r.notAfter :: (r.fingerprints ++
    ascii "CKA_CLASS CK_OBJECT_CLASS CKO_NSS_TRUST" :: (r.trusts ++ [ascii "#" ++ r.closing]))

def lines (r : Root) : List Bytes := r.certificateLines ++ r.trustLines

/-- What the script can read, and what stands around it is not in its way. -/
structure Readable (p : Perl) (r : Root) : Prop where
  comments : ∀ line ∈ r.comments, Passive p line
  attributes : ∀ line ∈ r.attributes, Neutral p line
  label : unlicensed (labelLine r.label) = true
  name : (p.decodedLength r.label).isSome = true
  details : ∀ line ∈ r.details, Neutral p line
  policies : ∀ line ∈ r.policies, Neutral p line
  distrustAfter : ∀ timestamp, r.distrustAfter = some timestamp →
    (p.timegm (timestamp.flatten.map UInt8.toNat)).isSome = true
  description : ∀ line ∈ r.description, Neutral p line
  notAfter : unlicensed (stampLine r.notAfter) = true
  date : (p.strptime r.notAfter).isSome = true
  fingerprints : ∀ line ∈ r.fingerprints, quiet line = true
  trusts : ∀ line ∈ r.trusts, TrustLine line
  closing : quiet (ascii "#" ++ r.closing) = true

/-- The date of the trust object has not passed. -/
def current (p : Perl) (r : Root) : Bool := (p.strptime r.notAfter).any fun time => ¬ time - p.now < 0

/-- The root has a certificate, is trusted to name servers, and is current. -/
def accepted (p : Perl) (r : Root) : Bool :=
  r.current p && shouldOutputCert (r.trusts.filterMap pushed) && !r.data.isEmpty

/-- Its entry in the bundle. -/
def entry (p : Perl) (r : Root) : List Bytes := CaBundle.entry r.label ((p.decodedLength r.label).getD 0) r.data

end Root

section Roots

variable {p : Perl} {s : State} {r : Root}

/-- A date from which on servers are to distrust the root only matters to whether it is valid so far. -/
theorem run_distrustLines (h : r.Readable p) (hs : s.reading = .body) :
    ∃ valid, run (step p) s r.distrustLines = some { s with valid := valid } := by
  unfold Root.distrustLines
  cases hdistrust : r.distrustAfter with
  | none => exact ⟨s.valid, rfl⟩
  | some timestamp =>
    obtain ⟨distrustat, htime⟩ := Option.isSome_iff_exists.1 (h.distrustAfter timestamp hdistrust)
    refine ⟨s.valid && p.now < distrustat, ?_⟩
    rw [run_cons_some (step_distrust hs), run_timestamp rfl, List.nil_append, distrusted, htime, ← hs]
    rfl

/-- Behind the object of its certificate the state has the name and the value of the root. -/
theorem run_certificateLines (h : r.Readable p) (hs : s.reading = .body) :
    ∃ valid, run (step p) s r.certificateLines = some ⟨.body, r.label, r.data.map UInt8.toNat, true, valid, s.crt⟩ := by
  obtain ⟨reading, caname, ckaValue, startOfCert, valid, crt⟩ := s
  cases hs
  obtain ⟨caname₁, valid₁, hcomments⟩ := run_passive (s := ⟨.body, caname, ckaValue, startOfCert, valid, crt⟩) h.comments rfl
  obtain ⟨valid₂, hattributes⟩ := run_neutral (s := ⟨.body, caname₁, ckaValue, true, valid₁, crt⟩) h.attributes rfl
  obtain ⟨valid₃, hdetails⟩ := run_neutral (s := ⟨.body, r.label, ckaValue, true, valid₂, crt⟩) h.details rfl
  obtain ⟨valid₄, hpolicies⟩ :=
    run_neutral (s := ⟨.body, r.label, r.data.map UInt8.toNat, true, valid₃, crt⟩) h.policies rfl
  obtain ⟨valid₅, hdistrust⟩ :=
    run_distrustLines (s := ⟨.body, r.label, r.data.map UInt8.toNat, true, valid₄, crt⟩) h rfl
  have hvalue : run (step p) ⟨.value, r.label, [], true, valid₃, crt⟩ (r.value.map octalLine ++ [ascii "END"]) =
      some ⟨.body, r.label, r.data.map UInt8.toNat, true, valid₃, crt⟩ := run_value rfl r.value
  refine ⟨valid₅, ?_⟩
  rw [Root.certificateLines, List.append_assoc, List.append_assoc, run_append_some hcomments, List.cons_append,
    run_cons_some (step_certificate rfl), List.append_assoc, run_append_some hattributes, List.cons_append,
    run_cons_some (step_label rfl h.label rfl), List.append_assoc, run_append_some hdetails, List.cons_append,
    run_cons_some (step_value rfl rfl), run_append_some hvalue, run_append_some hpolicies, hdistrust]

theorem mapM_toByte_map (data : Bytes) : (data.map UInt8.toNat).mapM toByte = some data := by
  induction data with
  | nil => rfl
  | cons b data ih =>
    have hb : toByte b.toNat = some b := by
      rw [toByte, if_pos b.toNat_lt]
      exact congrArg some (UInt8.ofNat_toNat)
    rw [List.map_cons, List.mapM_cons, hb, ih]
    rfl

/-- What a trust object makes of a certificate that is kept: an entry, or nothing. -/
theorem trusted_kept {label : Bytes} (hname : (p.decodedLength label).isSome = true) (data : Bytes)
    (levels : List (Bytes × Bytes)) (crt : List Bytes) :
    trusted p ⟨.body, label, data.map UInt8.toNat, true, true, crt⟩ levels =
      some (if shouldOutputCert levels && !data.isEmpty then
        ⟨.body, label, [], false, true, crt ++ CaBundle.entry label ((p.decodedLength label).getD 0) data⟩
      else ⟨.body, label, data.map UInt8.toNat, true, true, crt⟩) := by
  unfold trusted
  by_cases hgrant : shouldOutputCert levels = false
  · rw [if_pos hgrant, hgrant]
    rfl
  · rw [if_neg hgrant, (Bool.not_eq_false _).mp hgrant, Bool.true_and]
    by_cases hempty : data.isEmpty = true
    · have hnone : (data.map UInt8.toNat).isEmpty = true := by rw [List.isEmpty_map, hempty]
      rw [if_pos hnone, hempty]
      rfl
    · have hsome : ¬ (data.map UInt8.toNat).isEmpty = true := by
        rw [List.isEmpty_map]
        exact hempty
      obtain ⟨n, hn⟩ := Option.isSome_iff_exists.1 hname
      rw [if_neg hsome, mapM_toByte_map, (Bool.not_eq_true _).mp hempty, hn]
      rfl

/-- A trust object behind a certificate that is kept, whether it is its own or not: it makes the entry, if it is current and
grants trust.  One that is current and refuses leaves the certificate to the next one. -/
theorem run_trustLines (h : r.Readable p) {label : Bytes} (hname : (p.decodedLength label).isSome = true) (data : Bytes)
    (valid : Bool) (crt : List Bytes) :
    ∃ t, run (step p) ⟨.body, label, data.map UInt8.toNat, true, valid, crt⟩ r.trustLines = some t ∧ t.reading = .body ∧
      (t.crt = crt ++ if r.current p && shouldOutputCert (r.trusts.filterMap pushed) && !data.isEmpty then
        CaBundle.entry label ((p.decodedLength label).getD 0) data else []) ∧
      (r.current p = true → shouldOutputCert (r.trusts.filterMap pushed) = false →
        t = ⟨.body, label, data.map UInt8.toNat, true, true, crt⟩) := by
  obtain ⟨valid₁, hdescription⟩ :=
    run_neutral (s := ⟨.body, label, data.map UInt8.toNat, true, valid, crt⟩) h.description rfl
  obtain ⟨time, htime⟩ := Option.isSome_iff_exists.1 h.date
  have hcurrent : decide (¬ time - p.now < 0) = r.current p := by
    rw [Root.current, htime]
    rfl
  have hfront : ∀ lines, run (step p) ⟨.body, label, data.map UInt8.toNat, true, valid, crt⟩
      (r.description ++ stampLine r.notAfter :: (r.fingerprints ++
        ascii "CKA_CLASS CK_OBJECT_CLASS CKO_NSS_TRUST" :: lines)) =
      run (step p) (if r.current p then ⟨.trust [], label, data.map UInt8.toNat, true, r.current p, crt⟩
        else ⟨.body, label, data.map UInt8.toNat, true, r.current p, crt⟩) lines := by
    intro lines
    rw [run_append_some hdescription, run_cons_some (step_stamp rfl h.notAfter htime),
      run_append_some (run_quiet h.fingerprints rfl), run_cons_some (step_trust rfl), hcurrent]
  rw [Root.trustLines, hfront]
  by_cases hvalid : r.current p = true
  · have hlast : begins "#" (ascii "#" ++ r.closing) = true := begins_self _ _
    rw [hvalid, if_pos rfl, run_append_some (run_trusts h.trusts rfl), run_cons, step]
    dsimp only
    rw [if_pos hlast, List.nil_append, trusted_kept hname, Bool.true_and]
    refine ⟨_, rfl, ?_⟩
    cases hgrant : shouldOutputCert (r.trusts.filterMap pushed) && !data.isEmpty with
    | false => exact ⟨rfl, (List.append_nil _).symm, fun _ _ => rfl⟩
    | true => exact ⟨rfl, rfl, fun _ hrefused => by rw [hrefused] at hgrant; cases hgrant⟩
  · obtain ⟨caname, hpassed⟩ :=
      run_passed (s := ⟨.body, label, data.map UInt8.toNat, true, r.current p, crt⟩) h.trusts rfl
    rw [if_neg hvalid, run_append_some hpassed, run_cons_some (step_quiet rfl h.closing), (Bool.not_eq_true _).mp hvalid]
    exact ⟨_, rfl, rfl, (List.append_nil _).symm, fun hcurrent => absurd hcurrent Bool.false_ne_true⟩

theorem run_root (h : r.Readable p) (hs : s.reading = .body) :
    ∃ t, run (step p) s r.lines = some t ∧ t.reading = .body ∧
      t.crt = s.crt ++ if r.accepted p then r.entry p else [] := by
  obtain ⟨valid, hcertificate⟩ := run_certificateLines h hs
  obtain ⟨t, ht, hreading, hcrt, -⟩ := run_trustLines h h.name r.data valid s.crt
  exact ⟨t, (run_append_some hcertificate _).trans ht, hreading, hcrt⟩

theorem run_roots {roots : List Root} (h : ∀ r ∈ roots, r.Readable p) (hs : s.reading = .body) :
    ∃ t, run (step p) s (roots.flatMap Root.lines) = some t ∧ t.reading = .body ∧
      t.crt = s.crt ++ (roots.filter (Root.accepted p)).flatMap (Root.entry p) := by
  induction roots generalizing s with
  | nil => exact ⟨s, rfl, hs, (List.append_nil _).symm⟩
  | cons r roots ih =>
    obtain ⟨hr, hroots⟩ := List.forall_mem_cons.1 h
    obtain ⟨t, ht, hreading, hcrt⟩ := run_root hr hs
    obtain ⟨u, hu, hend, hall⟩ := ih hroots hreading
    refine ⟨u, (run_append_some ht _).trans hu, hend, ?_⟩
    rw [hall, hcrt, List.append_assoc, List.filter_cons]
    split <;> rfl

/-- Where a run ends behind an object, lines outside the objects do not matter. -/
theorem bundle_of_run {source : Source} {lines rest : List Bytes} {t : State}
    (ht : run (step p) (start source) lines = some t) (hreading : t.reading = .body)
    (hrest : ∀ line ∈ rest, Passive p line) : bundle p source (lines ++ rest) = some t.crt := by
  obtain ⟨caname, valid, hpassive⟩ := run_passive hrest hreading
  have hfinish : finish p { t with caname := caname, valid := valid } = some { t with caname := caname, valid := valid } := by
    rw [finish, hreading]
  rw [bundle, run_append_some ht, hpassive]
  show (finish p { t with caname := caname, valid := valid }).bind (fun s => some s.crt) = _
  rw [hfinish, Option.bind_some]

/-- The bundle of a file of roots has the accepted ones in their order, whatever dates they are to be distrusted from. -/
theorem bundle_eq (source : Source) {roots : List Root} (h : ∀ r ∈ roots, r.Readable p) {rest : List Bytes}
    (hrest : ∀ line ∈ rest, Passive p line) :
    bundle p source (roots.flatMap Root.lines ++ rest) =
      some (head source ++ (roots.filter (Root.accepted p)).flatMap (Root.entry p)) := by
  obtain ⟨t, ht, hreading, hcrt⟩ := run_roots (s := start source) h rfl
  rw [bundle_of_run ht hreading hrest, hcrt]
  rfl

/-- The script does not look at what a trust object is for.  One that stands alone behind a root that is refused grants its
trust to that root. -/
theorem bundle_lone (source : Source) {roots : List Root} (h : ∀ r ∈ roots, r.Readable p) {refused lone : Root}
    (hreadable : refused.Readable p) (hlone : lone.Readable p) {rest : List Bytes} (hrest : ∀ line ∈ rest, Passive p line)
    (hrefused : refused.current p = true ∧ shouldOutputCert (refused.trusts.filterMap pushed) = false)
    (hgrant : lone.current p = true ∧ shouldOutputCert (lone.trusts.filterMap pushed) = true) (hsome : refused.data ≠ []) :
    bundle p source (roots.flatMap Root.lines ++ (refused.lines ++ lone.trustLines) ++ rest) =
      some (head source ++ (roots.filter (Root.accepted p)).flatMap (Root.entry p) ++ refused.entry p) := by
  obtain ⟨s, hs, hbody, hroots⟩ := run_roots (s := start source) h rfl
  obtain ⟨valid, hcertificate⟩ := run_certificateLines hreadable hbody
  obtain ⟨t, ht, -, -, hkept⟩ := run_trustLines hreadable hreadable.name refused.data valid s.crt
  obtain ⟨u, hu, hreading, hcrt, -⟩ := run_trustLines hlone hreadable.name refused.data true s.crt
  have hroot : run (step p) s refused.lines =
      some ⟨.body, refused.label, refused.data.map UInt8.toNat, true, true, s.crt⟩ := by
    rw [Root.lines, run_append_some hcertificate, ht, hkept hrefused.1 hrefused.2]
  have hrun : run (step p) (start source) (roots.flatMap Root.lines ++ (refused.lines ++ lone.trustLines)) = some u := by
    rw [run_append_some hs, run_append_some hroot, hu]
  have hdata : refused.data.isEmpty = false := List.isEmpty_eq_false_iff.2 hsome
  rw [hgrant.1, hgrant.2, hdata] at hcrt
  rw [bundle_of_run hrun hreading hrest, hcrt, hroots]
  rfl

end Roots

/-! ### Reading the bundle -/

/-- How the scripts in Python read a file: all line ends are line feeds. -/
def universalNewlines : Bytes → Bytes
  | 13 :: 10 :: s => LF :: universalNewlines s
  | 13 :: s => LF :: universalNewlines s
  | b :: s => b :: universalNewlines s
  | [] => []

theorem universalNewlines_eq {s : Bytes} (h : CR ∉ s) : universalNewlines s = s := by
  induction s with
  | nil => rfl
  | cons b s ih =>
    rw [List.mem_cons, not_or] at h
    rw [universalNewlines.eq_def]
    split
    · rename_i heq
      exact absurd (List.cons.inj heq).1.symm h.1
    · rename_i heq
      exact absurd (List.cons.inj heq).1.symm h.1
    · rename_i heq
      obtain ⟨rfl, rfl⟩ := List.cons.inj heq
      rw [ih h.2]
    · contradiction

/-- What stands between the first and the last line of a certificate. -/
def pemBlocks (lines : List Bytes) : List (List Bytes) := Delimited.blocks beginCertificate endCertificate lines

/-- The certificates in a file of PEM. -/
def pemRead (lines : List Bytes) : Option (List Bytes) := (pemBlocks lines).mapM fun body => Base64.decode body.flatten

theorem head_ne_begin (source : Source) : ∀ line ∈ head source, line ≠ beginCertificate := by
  have hcomment : ∀ rest, 35 :: rest ≠ beginCertificate := fun rest heq => absurd (List.cons.inj heq).1 (by decide)
  simp only [head, List.forall_mem_cons]
  refine ⟨?_, ?_, ?_, ?_, ?_, ?_, ?_, ?_, ?_, ?_, ?_, ?_, ?_, ?_, ?_, ?_, ?_, ?_, by decide, List.forall_mem_nil _⟩ <;>
    exact hcomment _

/-- The lines of a certificate have no dashes. -/
theorem wrap_ne_end (data : Bytes) : ∀ line ∈ Lines.wrap width (Base64.encode data), line ≠ endCertificate := by
  rintro line hline rfl
  exact (Base64.mem_encode data 45 (Lines.mem_of_mem_wrap hline (by decide))).1 rfl

theorem pemBlocks_entry {caname : Bytes} (h : caname ≠ beginCertificate) (count : Nat) (data : Bytes) (rest : List Bytes) :
    pemBlocks (entry caname count data ++ rest) = Lines.wrap width (Base64.encode data) :: pemBlocks rest := by
  have hline : List.replicate count 61 ≠ beginCertificate := by
    intro heq
    have hmem : (45 : UInt8) ∈ List.replicate count 61 := heq ▸ by decide
    exact absurd (List.eq_of_mem_replicate hmem) (by decide)
  have hentry : entry caname count data ++ rest = [[], caname, List.replicate count 61] ++
      beginCertificate :: (Lines.wrap width (Base64.encode data) ++ endCertificate :: rest) := by
    simp [entry, pem]
  have hskip : ∀ line ∈ [[], caname, List.replicate count 61], line ≠ beginCertificate := by
    simp only [List.forall_mem_cons]
    exact ⟨by decide, h, hline, List.forall_mem_nil _⟩
  rw [hentry, pemBlocks, Delimited.blocks_skip hskip, Delimited.blocks_block (wrap_ne_end data)]
  rfl

/-- The certificates of a bundle whose entries have these names. -/
theorem pemBlocks_named (source : Source) {names : Root → Bytes} (count : Root → Nat) {roots : List Root}
    (h : ∀ r ∈ roots, names r ≠ beginCertificate) (rest : List Bytes) :
    pemBlocks (head source ++ (roots.flatMap fun r => CaBundle.entry (names r) (count r) r.data) ++ rest) =
      (roots.map fun r => Lines.wrap width (Base64.encode r.data)) ++ pemBlocks rest := by
  rw [List.append_assoc, pemBlocks, Delimited.blocks_skip (head_ne_begin source)]
  show pemBlocks _ = _
  induction roots with
  | nil => rfl
  | cons r roots ih =>
    obtain ⟨hr, hroots⟩ := List.forall_mem_cons.1 h
    rw [List.flatMap_cons, List.append_assoc, pemBlocks_entry hr, ih hroots, List.map_cons, List.cons_append]

theorem pemBlocks_bundle {p : Perl} (source : Source) {roots : List Root} (h : ∀ r ∈ roots, r.label ≠ beginCertificate) :
    pemBlocks (head source ++ roots.flatMap (Root.entry p)) =
      roots.map fun r => Lines.wrap width (Base64.encode r.data) := by
  have hblocks := pemBlocks_named source (fun r => (p.decodedLength r.label).getD 0) h []
  rw [List.append_nil] at hblocks
  exact hblocks.trans (List.append_nil _)

theorem mapM_decode (roots : List Root) :
    ((roots.map fun r => Lines.wrap width (Base64.encode r.data)).mapM fun body => Base64.decode body.flatten) =
      some (roots.map Root.data) := by
  rw [List.mapM_map]
  induction roots with
  | nil => rfl
  | cons r roots ih =>
    have hread : Base64.decode (Lines.wrap width (Base64.encode r.data)).flatten = some r.data := by
      rw [Lines.flatten_wrap, Base64.decode_encode]
    rw [List.mapM_cons, Function.comp_apply, hread, ih]
    rfl

theorem pemRead_bundle {p : Perl} (source : Source) {roots : List Root} (h : ∀ r ∈ roots, r.label ≠ beginCertificate) :
    pemRead (head source ++ roots.flatMap (Root.entry p)) = some (roots.map Root.data) := by
  rw [pemRead, pemBlocks_bundle source h, mapM_decode]

/-- It is 10, roots are valid up to 20, and servers are to distrust them from 5 on. -/
def smallPerl : Perl := ⟨10, fun _ => some 20, fun _ => some 5, fun name => some name.length⟩

def smallRoot (level : Bytes) (value : List Bytes) : Root where
  comments := [ascii "# A root"]
  attributes := [ascii "CKA_TOKEN CK_BBOOL CK_TRUE"]
  label := ascii "Root"
  details := []
  value := value
  policies := [ascii "CKA_NSS_MOZILLA_CA_POLICY CK_BBOOL CK_TRUE"]
  distrustAfter := some [ascii "200617000000Z"]
  description := []
  notAfter := ascii "Thu Sep 30 14:01:15 2021"
  fingerprints := []
  trusts := [ascii "CKA_TRUST_SERVER_AUTH CK_TRUST CKT_NSS_" ++ level]
  closing := []

/-- The first root is refused, the others are accepted. -/
def smallRoots (values : List (List Bytes)) : List Root :=
  smallRoot (ascii "NOT_TRUSTED") [[48, 7]] :: values.map (smallRoot (ascii "TRUSTED_DELEGATOR"))

/-- Another object behind the roots. -/
def smallRest : List Bytes :=
  [ascii "CKA_CLASS CK_OBJECT_CLASS CKO_NSS_BUILTIN_ROOT_LIST", ascii "CKA_LABEL UTF8 \"Mozilla Builtin Roots\""]

theorem readable_smallRoot {level : Bytes} (hlevel : TrustLine (ascii "CKA_TRUST_SERVER_AUTH CK_TRUST CKT_NSS_" ++ level))
    (value : List Bytes) : (smallRoot level value).Readable smallPerl := by
  refine ⟨?_, ?_, rfl, rfl, ?_, ?_, fun _ _ => rfl, ?_, rfl, rfl, ?_, ?_, rfl⟩
  · exact List.forall_mem_singleton.2 (.inl (.inl (by decide)))
  · exact List.forall_mem_singleton.2 (.inl (by decide))
  · exact List.forall_mem_nil _
  · exact List.forall_mem_singleton.2 (.inl (by decide))
  · exact List.forall_mem_nil _
  · exact List.forall_mem_nil _
  · exact List.forall_mem_singleton.2 hlevel

theorem readable_smallRoots (values : List (List Bytes)) : ∀ r ∈ smallRoots values, r.Readable smallPerl := by
  refine List.forall_mem_cons.2 ⟨readable_smallRoot ⟨by decide, .inl (by decide)⟩ _, fun r hr => ?_⟩
  obtain ⟨value, -, rfl⟩ := List.mem_map.1 hr
  exact readable_smallRoot ⟨by decide, .inl (by decide)⟩ value

theorem passive_smallRest : ∀ line ∈ smallRest, Passive smallPerl line :=
  List.forall_mem_cons.2 ⟨.inl (.inl (by decide)), List.forall_mem_singleton.2 (.inr ⟨by decide, by decide⟩)⟩

end IopHal.CaBundle
