import IopHal.Bytes
import IopHal.Library.Base64
import IopHal.Library.Lines
import IopHal.Library.Transitions

/-!
# The bundle of roots

`mk-ca-bundle.pl` takes the trusted roots from Mozilla's `certdata.txt` and writes them to `ca-bundle.crt`.  The file is here as
its lines, without their ends.  One `step` is one line that `<TXT>` reads, and `Reading` says which of the loops has read it.

The options have their defaults.  The download, the messages and the backup are left out, as is what the options `-m` and `-t`
would add.
-/

namespace IopHal.CaBundle

/-- What the modules of Perl say on this run. -/
structure Perl where
  now : Int
  /-- `Time::Piece->strptime($stamp, "%a %b %d %H:%M:%S %Y")->epoch`, which dies of other texts -/
  strptime : Bytes → Option Int
  /-- `timegm` of the parts of a time stamp, which dies of a time that there is not -/
  timegm : List Nat → Option Int
  /-- the number of characters that `decode('UTF-8', ...)` finds, which dies of a malformed text -/
  decodedLength : Bytes → Option Nat

/-! ### What the patterns match -/

/-- A pattern that is a text at the beginning of the line. -/
def begins (text : String) (line : Bytes) : Bool := (ascii text).isPrefixOf line

/-- What stands behind it. -/
def behind (text : String) (line : Bytes) : Option Bytes :=
  if begins text line then some (line.drop (ascii text).length) else none

/-- A pattern that is a text anywhere in the line. -/
def contains (text : String) (line : Bytes) : Bool := (Find.find (ascii text) line).isSome

/-- `/^CKA_LABEL UTF8 \"(.*)\"/`: up to the last quote -/
def labelOf (line : Bytes) : Option Bytes :=
  match behind "CKA_LABEL UTF8 \"" line with
  | none => none
  | some rest => if 34 ∈ rest then some (rest.rdropWhile (· ≠ 34)).dropLast else none

/-- `[A-Z_]` -/
def isWord (c : UInt8) : Bool := (65 ≤ c && c ≤ 90) || c == 95

/-- `[A-Z_]+` at the beginning, and what stands behind it. -/
def word (line : Bytes) : Option (Bytes × Bytes) :=
  if (line.takeWhile isWord).isEmpty then none else some (line.takeWhile isWord, line.dropWhile isWord)

/-- `\s+` at the beginning -/
def blanks : Bytes → Option Bytes
  | [] => none
  | c :: line => if isspace c then some (line.dropWhile isspace) else none

/-- `/^CKA_TRUST_([A-Z_]+)\s+CK_TRUST\s+CKT_NSS_([A-Z_]+)\s*$/`: the level and the purpose -/
def trustOf (line : Bytes) : Option (Bytes × Bytes) := do
  let rest ← behind "CKA_TRUST_" line
  let (purpose, rest) ← word rest
  let rest ← blanks rest
  let rest ← behind "CK_TRUST" rest
  let rest ← blanks rest
  let rest ← behind "CKT_NSS_" rest
  let (level, rest) ← word rest
  if rest.all isspace then return (level, purpose) else none

/-! ### Octal numbers -/

/-- The value of the digits that a number in this base begins with. -/
def numeral (base : Nat) (s : Bytes) : Nat :=
  let digit (c : UInt8) : Nat := if isDigit c then c.toNat - 48 else (tolower c).toNat - 87
  (s.takeWhile fun c => (isDigit c || (97 ≤ tolower c && tolower c ≤ 102)) && digit c < base).foldl
    (fun n c => base * n + digit c) 0

/-- `oct`, for which a number may say another base. -/
def oct (s : Bytes) : Nat :=
  let s := s.dropWhile isspace
  let s := if s.head? = some 48 then s.tail else s
  match s.head?.map tolower with
  | some 120 => numeral 16 s.tail
  | some 98 => numeral 2 s.tail
  | some 111 => numeral 8 s.tail
  | _ => numeral 8 s

/-- The characters of `split(/\\/)` without the first field; trailing fields that are empty are no fields. -/
def octets (line : Bytes) : List Nat := ((line.splitOn 92).rdropWhile (·.isEmpty)).tail.map oct

/-! ### Trust -/

def validMozillaTrustPurposes : List Bytes :=
  [ascii "DIGITAL_SIGNATURE", ascii "NON_REPUDIATION", ascii "KEY_ENCIPHERMENT", ascii "DATA_ENCIPHERMENT",
    ascii "KEY_AGREEMENT", ascii "KEY_CERT_SIGN", ascii "CRL_SIGN", ascii "SERVER_AUTH", ascii "CLIENT_AUTH",
    ascii "CODE_SIGNING", ascii "EMAIL_PROTECTION", ascii "IPSEC_END_SYSTEM", ascii "IPSEC_TUNNEL", ascii "IPSEC_USER",
    ascii "TIME_STAMPING", ascii "STEP_UP_APPROVED"]

def validMozillaTrustLevels : List Bytes :=
  [ascii "TRUSTED_DELEGATOR", ascii "NOT_TRUSTED", ascii "MUST_VERIFY_TRUST", ascii "TRUSTED"]

def includedMozillaTrustPurposes : List Bytes := [ascii "SERVER_AUTH"]

def includedMozillaTrustLevels : List Bytes := [ascii "TRUSTED_DELEGATOR"]

/-- What a line of a trust object pushes to `%trust_purposes_by_level`: a level, and a purpose for it. -/
def pushed (line : Bytes) : Option (Bytes × Bytes) :=
  (trustOf line).filter fun trust => validMozillaTrustPurposes.contains trust.2 && validMozillaTrustLevels.contains trust.1

/-- `should_output_cert` -/
def shouldOutputCert (trustPurposesByLevel : List (Bytes × Bytes)) : Bool :=
  includedMozillaTrustLevels.any fun level =>
    trustPurposesByLevel.any fun trust => trust.1 == level && includedMozillaTrustPurposes.contains trust.2

/-! ### What is printed -/

def beginCertificate : Bytes := ascii "-----BEGIN CERTIFICATE-----"

def endCertificate : Bytes := ascii "-----END CERTIFICATE-----"

/-- `$opt_w` -/
def width : Nat := 76

/-- Lines with their ends. -/
def printed (lines : List Bytes) : Bytes := lines.flatMap fun line => line ++ [LF]

/-- `$pem`, by its lines -/
def pem (data : Bytes) : List Bytes := beginCertificate :: (Lines.wrap width (Base64.encode data) ++ [endCertificate])

/-- What is printed for a root: its name, underlined, and its certificate. -/
def entry (caname : Bytes) (maxStringLength : Nat) (data : Bytes) : List Bytes :=
  [] :: caname :: List.replicate maxStringLength 61 :: pem data

/-- What the head of the file says of the data. -/
structure Source where
  datesrc : Bytes
  currentdate : Bytes
  newhash : Bytes

/-- The head of the file. -/
def head (s : Source) : List Bytes :=
  [ascii "##", ascii "## Bundle of CA Root Certificates", ascii "##",
    ascii "## Certificate data from Mozilla " ++ s.datesrc ++ ascii ": " ++ s.currentdate ++ ascii " GMT", ascii "##",
    ascii "## This is a bundle of X.509 certificates of public Certificate Authorities",
    ascii "## (CA). These were automatically extracted from Mozilla's root certificates",
    ascii "## file (certdata.txt).  This file can be found in the mozilla source tree:",
    ascii "## https://hg.mozilla.org/releases/mozilla-release/raw-file/default/security/nss/lib/ckfw/builtins/certdata.txt",
    ascii "##", ascii "## It contains the certificates in PEM format and therefore",
    ascii "## can be directly used with curl / libcurl / php_curl, or with",
    ascii "## an Apache+mod_ssl webserver for SSL client authentication.",
    ascii "## Just configure this file as the SSLCACertificateFile.", ascii "##",
    ascii "## Conversion done with mk-ca-bundle.pl version 1.28.", ascii "## SHA256: " ++ s.newhash, ascii "##", []]

/-! ### The loop -/

/-- The loop that has read the line. -/
inductive Reading
  | body
  | license
  | distrust (timestamp : List Nat)
  | value
  | trust (trustPurposesByLevel : List (Bytes × Bytes))

/-- The variables, and the lines of `ca-bundle.crt` so far. -/
structure State where
  reading : Reading
  caname : Bytes
  ckaValue : List Nat
  startOfCert : Bool
  valid : Bool
  crt : List Bytes

def start (source : Source) : State := ⟨.body, [], [], false, true, head source⟩

/-- Behind the loop over a time stamp. -/
def distrusted (p : Perl) (s : State) (timestamp : List Nat) : Option State :=
  (p.timegm timestamp).map fun distrustat => { s with valid := s.valid && p.now < distrustat }

/-- `encode_base64` dies of a character that is no byte. -/
def toByte (n : Nat) : Option UInt8 := if n < 256 then some n.toUInt8 else none

/-- Behind the loop over a trust object. -/
def trusted (p : Perl) (s : State) (trustPurposesByLevel : List (Bytes × Bytes)) : Option State :=
  if shouldOutputCert trustPurposesByLevel = false then some s
  else if s.ckaValue.isEmpty then some s
  else do
    let data ← s.ckaValue.mapM toByte
    let maxStringLength ← p.decodedLength s.caname
    return { s with ckaValue := [], crt := s.crt ++ entry s.caname maxStringLength data, startOfCert := false }

/-- What is behind `chomp`. -/
def record (s : State) (line : Bytes) : State :=
  if begins "CKA_NSS_SERVER_DISTRUST_AFTER CK_BBOOL CK_FALSE" line then s
  else if begins "CKA_NSS_SERVER_DISTRUST_AFTER MULTILINE_OCTAL" line then { s with reading := .distrust [] }
  -- no line begins with two of these
  else if begins "CKA_CLASS CK_OBJECT_CLASS CKO_CERTIFICATE" line then { s with startOfCert := true }
  else if s.startOfCert && (labelOf line).isSome then { s with caname := (labelOf line).getD [] }
  else if s.startOfCert && begins "CKA_VALUE MULTILINE_OCTAL" line then { s with ckaValue := [], reading := .value }
  else if begins "CKA_CLASS CK_OBJECT_CLASS CKO_NSS_TRUST" line && s.valid then { s with reading := .trust [] }
  else s

/-- The outer loop. -/
def body (p : Perl) (s : State) (line : Bytes) : Option State :=
  if contains "***** BEGIN LICENSE BLOCK *****" line then some { s with crt := s.crt ++ [line], reading := .license }
  else
    match behind "# Not Valid After : " line with
    | some stamp => (p.strptime stamp).map fun t => { s with valid := ¬ t - p.now < 0 }
    | none =>
      -- the comments that `-m` would keep are no exception without it
      if begins "#" line || line.all isspace then some s else some (record s line)

def step (p : Perl) (s : State) (line : Bytes) : Option State :=
  match s.reading with
  | .body => body p s line
  | .license =>
    let s := { s with crt := s.crt ++ [line] }
    if contains "***** END LICENSE BLOCK *****" line then some (record { s with reading := .body } line) else some s
  | .distrust timestamp =>
    if begins "END" line then distrusted p { s with reading := .body } timestamp
    else some { s with reading := .distrust (timestamp ++ octets line) }
  | .value =>
    -- the last line is none that the code behind the loop looks for
    if begins "END" line then some { s with reading := .body } else some { s with ckaValue := s.ckaValue ++ octets line }
  | .trust trustPurposesByLevel =>
    if begins "#" line then trusted p { s with reading := .body } trustPurposesByLevel
    else some { s with reading := .trust (trustPurposesByLevel ++ (pushed line).toList) }

/-- Where the file ends, each loop does, and the code behind it is carried out. -/
def finish (p : Perl) (s : State) : Option State :=
  match s.reading with
  | .distrust timestamp => distrusted p s timestamp
  | .trust trustPurposesByLevel => trusted p s trustPurposesByLevel
  | _ => some s

/-- The lines of `ca-bundle.crt`, if the script gets through. -/
def bundle (p : Perl) (source : Source) (certdata : List Bytes) : Option (List Bytes) := do
  let s ← Transitions.run (step p) (start source) certdata
  let s ← finish p s
  return s.crt

/-! ### What the file has to say for an entry -/

/-- A line behind which a loop passes over lines: a license block, a time stamp or a trust object, as far as it goes. -/
def Loop (line : Bytes) (inside : List Bytes) : Prop :=
  (contains "***** BEGIN LICENSE BLOCK *****" line = true ∧ ∀ l ∈ inside, contains "***** END LICENSE BLOCK *****" l = false) ∨
    (begins "CKA_NSS_SERVER_DISTRUST_AFTER MULTILINE_OCTAL" line = true ∧ ∀ l ∈ inside, begins "END" l = false) ∨
    (begins "CKA_CLASS CK_OBJECT_CLASS CKO_NSS_TRUST" line = true ∧ ∀ l ∈ inside, begins "#" l = false)

/-- No value is read in these lines: where one seems to begin, a loop passes over the line. -/
inductive Spared : List Bytes → Prop
  | nil : Spared []
  | line {lines : List Bytes} {line : Bytes} (h : Spared lines) (hline : begins "CKA_VALUE MULTILINE_OCTAL" line = false) :
      Spared (lines ++ [line])
  | loop {lines inside : List Bytes} {line : Bytes} (h : Spared lines) (hloop : Loop line inside) :
      Spared (lines ++ line :: inside)

/-- A whole value with these characters, and no other one behind it. -/
def HasValue (lines : List Bytes) (characters : List Nat) : Prop :=
  ∃ before line octs last after, lines = before ++ line :: (octs ++ last :: after) ∧
    begins "CKA_VALUE MULTILINE_OCTAL" line = true ∧ (∀ l ∈ octs, begins "END" l = false) ∧ begins "END" last = true ∧
    characters = octs.flatMap octets ∧ Spared after

/-- The lines begin with a trust object, as far as it goes, that trusts a certificate to name servers. -/
def Grants (lines : List Bytes) : Prop :=
  ∃ line trusts after, lines = line :: (trusts ++ after) ∧ begins "CKA_CLASS CK_OBJECT_CLASS CKO_NSS_TRUST" line = true ∧
    (∀ l ∈ trusts, begins "#" l = false) ∧ ∃ l ∈ trusts, trustOf l = some (ascii "TRUSTED_DELEGATOR", ascii "SERVER_AUTH")

/-- The certificate is a value, and the trust object that grants trust is behind it with no other value in between. -/
def Trusted (lines : List Bytes) (data : Bytes) : Prop :=
  ∃ first second, lines = first ++ second ∧ HasValue first (data.map UInt8.toNat) ∧ Grants second

/-- What may stand behind the head of the bundle of a file whose first lines have been read: lines of a license block, and
entries, each for lines behind those of the entry in front of it. -/
inductive Printed (file : List Bytes) : List Bytes → List Bytes → Prop
  | nil : Printed file [] []
  | license {read crt : List Bytes} {line : Bytes} (h : Printed file read crt) (hline : line ∈ file)
      (hblock : ∃ l ∈ file, contains "***** BEGIN LICENSE BLOCK *****" l = true) : Printed file read (crt ++ [line])
  | entry {read crt lines : List Bytes} {data : Bytes} (h : Printed file read crt) (caname : Bytes) (maxStringLength : Nat)
      (htrusted : Trusted lines data) : Printed file (read ++ lines) (crt ++ entry caname maxStringLength data)

theorem HasValue.append_line {lines : List Bytes} {characters : List Nat} {line : Bytes} (h : HasValue lines characters)
    (hline : begins "CKA_VALUE MULTILINE_OCTAL" line = false) : HasValue (lines ++ [line]) characters := by
  obtain ⟨before, first, octs, last, after, rfl, hfirst, hocts, hlast, hdata, hafter⟩ := h
  exact ⟨before, first, octs, last, after ++ [line], by simp, hfirst, hocts, hlast, hdata, hafter.line hline⟩

theorem HasValue.append_loop {lines inside : List Bytes} {characters : List Nat} {line : Bytes} (h : HasValue lines characters)
    (hloop : Loop line inside) : HasValue (lines ++ line :: inside) characters := by
  obtain ⟨before, first, octs, last, after, rfl, hfirst, hocts, hlast, hdata, hafter⟩ := h
  exact ⟨before, first, octs, last, after ++ line :: inside, by simp, hfirst, hocts, hlast, hdata, hafter.loop hloop⟩

theorem Printed.append {file read crt : List Bytes} (h : Printed file read crt) (more : List Bytes) :
    Printed (file ++ more) read crt := by
  induction h with
  | nil => exact .nil
  | license _ hline hblock ih =>
    obtain ⟨l, hl, hbegin⟩ := hblock
    exact .license ih (List.mem_append_left _ hline) ⟨l, List.mem_append_left _ hl, hbegin⟩
  | entry _ caname maxStringLength htrusted ih => exact .entry ih caname maxStringLength htrusted

/-- The one level and the one purpose that count. -/
theorem shouldOutputCert_iff (trusts : List Bytes) :
    shouldOutputCert (trusts.filterMap pushed) = true ↔
      ∃ l ∈ trusts, trustOf l = some (ascii "TRUSTED_DELEGATOR", ascii "SERVER_AUTH") := by
  have hvalid : validMozillaTrustPurposes.contains (ascii "SERVER_AUTH") = true ∧
      validMozillaTrustLevels.contains (ascii "TRUSTED_DELEGATOR") = true := by decide
  unfold shouldOutputCert includedMozillaTrustLevels includedMozillaTrustPurposes
  rw [List.any_cons, List.any_nil, Bool.or_false, List.any_eq_true]
  constructor
  · rintro ⟨⟨level, purpose⟩, hmem, htrust⟩
    obtain ⟨l, hl, hpushed⟩ := List.mem_filterMap.1 hmem
    simp only [Bool.and_eq_true, beq_iff_eq, List.contains_iff_mem, List.mem_singleton] at htrust
    obtain ⟨rfl, rfl⟩ := htrust
    exact ⟨l, hl, (Option.filter_eq_some_iff.1 hpushed).1⟩
  · rintro ⟨l, hl, htrust⟩
    refine ⟨_, List.mem_filterMap.2 ⟨l, hl, Option.filter_eq_some_iff.2 ⟨htrust, ?_⟩⟩, by simp⟩
    rw [hvalid.1, hvalid.2]
    rfl

/-- Characters that are all bytes. -/
theorem mapM_toByte {characters : List Nat} {data : Bytes} (h : characters.mapM toByte = some data) :
    characters = data.map UInt8.toNat := by
  induction characters generalizing data with
  | nil =>
    cases h
    rfl
  | cons n characters ih =>
    rw [List.mapM_cons] at h
    obtain ⟨b, hb, h⟩ := Option.bind_eq_some_iff.1 h
    obtain ⟨rest, hrest, h⟩ := Option.bind_eq_some_iff.1 h
    cases h
    unfold toByte at hb
    split at hb
    · cases hb
      rw [List.map_cons, ← ih hrest]
      congr 1
      show n = n % 256
      omega
    · cases hb

/-! ### Every entry is a trusted root -/

/-- Texts that differ do not stand at the beginning of one line. -/
theorem begins_exclusive {text other : String} {line : Bytes} (h : begins text line = true) (n : Nat)
    (hn : n ≤ (ascii text).length ∧ n ≤ (ascii other).length ∧ (ascii text).take n ≠ (ascii other).take n) :
    begins other line = false := by
  rw [Bool.eq_false_iff]
  intro hother
  obtain ⟨rest, hrest⟩ := List.isPrefixOf_iff_prefix.1 h
  obtain ⟨rest', hrest'⟩ := List.isPrefixOf_iff_prefix.1 hother
  have htext : line.take n = (ascii text).take n := by rw [← hrest, List.take_append_of_le_length hn.1]
  have htext' : line.take n = (ascii other).take n := by rw [← hrest', List.take_append_of_le_length hn.2.1]
  exact hn.2.2 (htext.symm.trans htext')

theorem begins_of_labelOf {line : Bytes} (h : (labelOf line).isSome = true) : begins "CKA_LABEL UTF8 \"" line = true := by
  unfold labelOf behind at h
  by_cases hline : begins "CKA_LABEL UTF8 \"" line = true
  · exact hline
  · rw [if_neg hline] at h
    cases h

/-- The characters are a whole value of an object whose certificate has begun, if there are any. -/
def Held (since : List Bytes) (s : State) : Prop := s.ckaValue = [] ∨ s.startOfCert = true ∧ HasValue since s.ckaValue

/-- What the lines since the last entry say of the loop that reads. -/
def Within (since : List Bytes) (s : State) : Prop :=
  match s.reading with
  | .body => Held since s
  | .license => ∃ first line inside, since = first ++ line :: inside ∧
      contains "***** BEGIN LICENSE BLOCK *****" line = true ∧
      (∀ l ∈ inside, contains "***** END LICENSE BLOCK *****" l = false) ∧ Held first s
  | .distrust _ => ∃ first line inside, since = first ++ line :: inside ∧
      begins "CKA_NSS_SERVER_DISTRUST_AFTER MULTILINE_OCTAL" line = true ∧ (∀ l ∈ inside, begins "END" l = false) ∧ Held first s
  | .value => ∃ before line octs, since = before ++ line :: octs ∧ begins "CKA_VALUE MULTILINE_OCTAL" line = true ∧
      (∀ l ∈ octs, begins "END" l = false) ∧ s.ckaValue = octs.flatMap octets ∧ s.startOfCert = true
  | .trust levels => ∃ first line trusts, since = first ++ line :: trusts ∧
      begins "CKA_CLASS CK_OBJECT_CLASS CKO_NSS_TRUST" line = true ∧ (∀ l ∈ trusts, begins "#" l = false) ∧
      levels = trusts.filterMap pushed ∧ Held first s

/-- What holds behind the lines up to the last entry and those since. -/
structure Sound (source : Source) (read since : List Bytes) (s : State) : Prop where
  within : Within since s
  crt : ∃ rest, s.crt = head source ++ rest ∧ Printed (read ++ since) read rest

section Sound

variable {p : Perl} {source : Source} {read since : List Bytes} {s t : State} {line : Bytes}

theorem within_body (hreading : s.reading = .body) : Within since s ↔ Held since s := by
  unfold Within
  rw [hreading]

theorem sound_start (source : Source) : Sound source [] [] (start source) :=
  ⟨Or.inl rfl, [], (List.append_nil _).symm, .nil⟩

theorem Held.append_line (h : Held since s) (hline : begins "CKA_VALUE MULTILINE_OCTAL" line = false) : Held (since ++ [line]) s :=
  h.imp_right fun hvalue => ⟨hvalue.1, hvalue.2.append_line hline⟩

theorem Held.append_loop (h : Held since s) {inside : List Bytes} (hloop : Loop line inside) : Held (since ++ line :: inside) s :=
  h.imp_right fun hvalue => ⟨hvalue.1, hvalue.2.append_loop hloop⟩

/-- Where no certificate has begun, no value is held. -/
theorem Held.outside (h : Held since s) (hstart : s.startOfCert = false) (lines : List Bytes) : Held lines s :=
  Or.inl (h.resolve_right fun hvalue => Bool.false_ne_true (hstart.symm.trans hvalue.1))

theorem crt_append {crt : List Bytes} (h : ∃ rest, crt = head source ++ rest ∧ Printed (read ++ since) read rest)
    (more : List Bytes) : ∃ rest, crt = head source ++ rest ∧ Printed (read ++ (since ++ more)) read rest := by
  obtain ⟨rest, hrest, hprinted⟩ := h
  exact ⟨rest, hrest, List.append_assoc read since more ▸ hprinted.append more⟩

/-- The line in a license block is printed. -/
theorem crt_license {crt : List Bytes} (h : ∃ rest, crt = head source ++ rest ∧ Printed (read ++ since) read rest)
    (hline : line ∈ since) (hblock : ∃ l ∈ since, contains "***** BEGIN LICENSE BLOCK *****" l = true) :
    ∃ rest, crt ++ [line] = head source ++ rest ∧ Printed (read ++ since) read rest := by
  obtain ⟨rest, hrest, hprinted⟩ := h
  obtain ⟨l, hl, hbegin⟩ := hblock
  refine ⟨rest ++ [line], by rw [hrest, List.append_assoc], ?_⟩
  exact .license hprinted (List.mem_append_right _ hline) ⟨l, List.mem_append_right _ hl, hbegin⟩

theorem sound_record (hreading : s.reading = .body) (hheld : Held since s)
    (hcrt : ∃ rest, s.crt = head source ++ rest ∧ Printed (read ++ (since ++ [line])) read rest) :
    Sound source read (since ++ [line]) (record s line) := by
  unfold record
  split
  · rename_i hoff
    exact ⟨(within_body hreading).2 (hheld.append_line (begins_exclusive hoff 5 (by decide))), hcrt⟩
  · split
    · rename_i hon
      exact ⟨⟨since, line, [], rfl, hon, List.forall_mem_nil _, hheld⟩, hcrt⟩
    · split
      · rename_i hcertificate
        have hheld' := hheld.append_line (begins_exclusive hcertificate 5 (by decide))
        have hbegun : Held (since ++ [line]) { s with startOfCert := true } := hheld'.imp_right fun hvalue => ⟨rfl, hvalue.2⟩
        exact ⟨(within_body (s := { s with startOfCert := true }) hreading).2 hbegun, hcrt⟩
      · split
        · rename_i hlabel
          have hbegins := begins_of_labelOf (Bool.and_eq_true_iff.1 hlabel).2
          have hheld' := hheld.append_line (begins_exclusive hbegins 5 (by decide))
          exact ⟨(within_body hreading).2 hheld', hcrt⟩
        · split
          · rename_i hvalue
            obtain ⟨hstart, hvalue⟩ := Bool.and_eq_true_iff.1 hvalue
            exact ⟨⟨since, line, [], rfl, hvalue, List.forall_mem_nil _, rfl, hstart⟩, hcrt⟩
          · rename_i hvalue
            split
            · rename_i htrust
              exact ⟨⟨since, line, [], rfl, (Bool.and_eq_true_iff.1 htrust).1, List.forall_mem_nil _, rfl, hheld⟩, hcrt⟩
            · refine ⟨(within_body hreading).2 ?_, hcrt⟩
              rcases Bool.eq_false_or_eq_true s.startOfCert with hstart | hstart
              · rw [hstart, Bool.true_and] at hvalue
                exact hheld.append_line ((Bool.not_eq_true _).mp hvalue)
              · exact hheld.outside hstart _

theorem sound_body (hreading : s.reading = .body) (h : Sound source read since s) (hstep : body p s line = some t) :
    Sound source read (since ++ [line]) t := by
  have hheld : Held since s := (within_body hreading).1 h.within
  have hcrt := crt_append h.crt [line]
  unfold body at hstep
  split at hstep
  · rename_i hbegin
    rw [← Option.some.inj hstep]
    have hline : line ∈ since ++ [line] := List.mem_append_right _ (List.mem_singleton_self line)
    exact ⟨⟨since, line, [], rfl, hbegin, List.forall_mem_nil _, hheld⟩, crt_license hcrt hline ⟨line, hline, hbegin⟩⟩
  · split at hstep
    · rename_i stamp hstamp
      have hcomment : begins "# Not Valid After : " line = true := by
        by_contra hline
        rw [behind, if_neg hline] at hstamp
        cases hstamp
      obtain ⟨time, -, ht⟩ := Option.map_eq_some_iff.1 hstep
      rw [← ht]
      have hheld' := hheld.append_line (begins_exclusive hcomment 1 (by decide))
      exact ⟨(within_body hreading).2 hheld', hcrt⟩
    · split at hstep
      · rename_i hquiet
        have hline : begins "CKA_VALUE MULTILINE_OCTAL" line = false := by
          rw [Bool.eq_false_iff]
          intro hvalue
          have hcomment : begins "#" line = false := begins_exclusive hvalue 1 (by decide)
          obtain ⟨rest, rfl⟩ := List.isPrefixOf_iff_prefix.1 hvalue
          rw [hcomment] at hquiet
          cases hquiet
        rw [← Option.some.inj hstep]
        exact ⟨(within_body hreading).2 (hheld.append_line hline), hcrt⟩
      · rw [← Option.some.inj hstep]
        exact sound_record hreading hheld hcrt

theorem distrusted_eq_some {timestamp : List Nat} (h : distrusted p s timestamp = some t) :
    ∃ valid, t = { s with valid := valid } := by
  obtain ⟨distrustat, -, rfl⟩ := Option.map_eq_some_iff.1 h
  exact ⟨_, rfl⟩

/-- What stands behind a trust object: an entry for the value in front of it, if there is one and it is trusted. -/
theorem trusted_eq_some {levels : List (Bytes × Bytes)} (h : trusted p s levels = some t) :
    t = s ∨ shouldOutputCert levels = true ∧ s.ckaValue ≠ [] ∧ ∃ data maxStringLength, s.ckaValue = data.map UInt8.toNat ∧
      t = { s with ckaValue := [], crt := s.crt ++ entry s.caname maxStringLength data, startOfCert := false } := by
  unfold trusted at h
  split at h
  · exact Or.inl (Option.some.inj h).symm
  · rename_i hgrant
    split at h
    · exact Or.inl (Option.some.inj h).symm
    · rename_i hempty
      obtain ⟨data, hdata, h⟩ := Option.bind_eq_some_iff.1 h
      obtain ⟨maxStringLength, -, h⟩ := Option.bind_eq_some_iff.1 h
      have hsome : s.ckaValue ≠ [] := fun hnil => hempty (by rw [hnil]; rfl)
      exact Or.inr ⟨(Bool.not_eq_false _).mp hgrant, hsome, data, maxStringLength, mapM_toByte hdata, (Option.some.inj h).symm⟩

/-- The entry for the value in front of a trust object. -/
theorem printed_trusted {first trusts after : List Bytes} (hsince : since = first ++ line :: (trusts ++ after))
    (hline : begins "CKA_CLASS CK_OBJECT_CLASS CKO_NSS_TRUST" line = true) (htrusts : ∀ l ∈ trusts, begins "#" l = false)
    (hheld : Held first s) (hsome : s.ckaValue ≠ []) (hgrant : shouldOutputCert (trusts.filterMap pushed) = true)
    {data : Bytes} (hdata : s.ckaValue = data.map UInt8.toNat)
    (hcrt : ∃ rest, s.crt = head source ++ rest ∧ Printed (read ++ since) read rest) (maxStringLength : Nat) :
    ∃ rest, s.crt ++ entry s.caname maxStringLength data = head source ++ rest ∧
      Printed (read ++ since) (read ++ since) rest := by
  obtain ⟨rest, hrest, hprinted⟩ := hcrt
  have hvalue : HasValue first (data.map UInt8.toNat) := hdata ▸ (hheld.resolve_left hsome).2
  have htrust : Grants (line :: (trusts ++ after)) :=
    ⟨line, trusts, after, rfl, hline, htrusts, (shouldOutputCert_iff trusts).1 hgrant⟩
  refine ⟨rest ++ entry s.caname maxStringLength data, by rw [hrest, List.append_assoc], ?_⟩
  exact .entry hprinted _ _ ⟨_, _, hsince, hvalue, htrust⟩

/-- A line behind which the loop goes on. -/
theorem forall_concat {inside : List Bytes} {ends : Bytes → Bool} (h : ∀ l ∈ inside, ends l = false)
    (hline : ¬ ends line = true) : ∀ l ∈ inside ++ [line], ends l = false :=
  List.forall_mem_append.2 ⟨h, List.forall_mem_singleton.2 ((Bool.not_eq_true _).mp hline)⟩

theorem sound_license (hreading : s.reading = .license) (h : Sound source read since s) (hstep : step p s line = some t) :
    Sound source read (since ++ [line]) t := by
  have hwithin := h.within
  unfold Within at hwithin
  rw [hreading] at hwithin
  obtain ⟨first, opening, inside, rfl, hopen, hinside, hheld⟩ := hwithin
  have hline : line ∈ first ++ opening :: inside ++ [line] := List.mem_append_right _ (List.mem_singleton_self line)
  have hblock : ∃ l ∈ first ++ opening :: inside ++ [line], contains "***** BEGIN LICENSE BLOCK *****" l = true :=
    ⟨opening, List.mem_append_left _ (List.mem_append_right _ (List.mem_cons_self ..)), hopen⟩
  have hcrt := crt_license (crt_append h.crt [line]) hline hblock
  rw [step, hreading] at hstep
  dsimp only at hstep
  split at hstep
  · rw [← Option.some.inj hstep]
    have hheld' : Held (first ++ opening :: inside) { s with crt := s.crt ++ [line], reading := .body } :=
      Held.append_loop hheld (.inl ⟨hopen, hinside⟩)
    exact sound_record rfl hheld' hcrt
  · rename_i hlast
    rw [← Option.some.inj hstep]
    exact ⟨⟨first, opening, inside ++ [line], by simp, hopen, forall_concat hinside hlast, hheld⟩, hcrt⟩

theorem sound_distrust {timestamp : List Nat} (hreading : s.reading = .distrust timestamp) (h : Sound source read since s)
    (hstep : step p s line = some t) : Sound source read (since ++ [line]) t := by
  have hwithin := h.within
  have hcrt := crt_append h.crt [line]
  unfold Within at hwithin
  rw [hreading] at hwithin
  obtain ⟨first, opening, inside, rfl, hopen, hinside, hheld⟩ := hwithin
  rw [step, hreading] at hstep
  dsimp only at hstep
  split at hstep
  · rename_i hlast
    obtain ⟨valid, rfl⟩ := distrusted_eq_some hstep
    have hheld' : Held (first ++ opening :: inside) s := hheld.append_loop (.inr (.inl ⟨hopen, hinside⟩))
    exact ⟨hheld'.append_line (begins_exclusive hlast 1 (by decide)), hcrt⟩
  · rename_i hlast
    rw [← Option.some.inj hstep]
    exact ⟨⟨first, opening, inside ++ [line], by simp, hopen, forall_concat hinside hlast, hheld⟩, hcrt⟩

theorem sound_value (hreading : s.reading = .value) (h : Sound source read since s) (hstep : step p s line = some t) :
    Sound source read (since ++ [line]) t := by
  have hwithin := h.within
  have hcrt := crt_append h.crt [line]
  unfold Within at hwithin
  rw [hreading] at hwithin
  obtain ⟨before, first, octs, rfl, hfirst, hocts, hvalue, hstart⟩ := hwithin
  rw [step, hreading] at hstep
  dsimp only at hstep
  split at hstep
  · rename_i hlast
    rw [← Option.some.inj hstep]
    exact ⟨Or.inr ⟨hstart, before, first, octs, line, [], by simp, hfirst, hocts, hlast, hvalue, .nil⟩, hcrt⟩
  · rename_i hlast
    rw [← Option.some.inj hstep]
    refine ⟨⟨before, first, octs ++ [line], by simp, hfirst, forall_concat hocts hlast, ?_, hstart⟩, hcrt⟩
    rw [hvalue, List.flatMap_append, List.flatMap_singleton]

/-- Behind an entry stand lines that are still to come. -/
theorem sound_trust {levels : List (Bytes × Bytes)} (hreading : s.reading = .trust levels) (h : Sound source read since s)
    (hstep : step p s line = some t) :
    Sound source read (since ++ [line]) t ∨ Sound source (read ++ (since ++ [line])) [] t := by
  have hwithin := h.within
  have hcrt := crt_append h.crt [line]
  unfold Within at hwithin
  rw [hreading] at hwithin
  obtain ⟨first, cls, trusts, rfl, hcls, htrusts, rfl, hheld⟩ := hwithin
  have hlines : first ++ cls :: trusts ++ [line] = first ++ cls :: (trusts ++ [line]) := by simp
  rw [step, hreading] at hstep
  dsimp only at hstep
  split at hstep
  · rename_i hlast
    rcases trusted_eq_some hstep with rfl | ⟨hgrant, hsome, data, maxStringLength, hdata, rfl⟩
    · have hheld' : Held (first ++ cls :: trusts) s := hheld.append_loop (.inr (.inr ⟨hcls, htrusts⟩))
      exact Or.inl ⟨hheld'.append_line (begins_exclusive hlast 1 (by decide)), hcrt⟩
    · have hprinted := printed_trusted hlines hcls htrusts hheld hsome hgrant hdata hcrt maxStringLength
      refine Or.inr ⟨Or.inl rfl, ?_⟩
      rwa [List.append_nil]
  · rename_i hlast
    rw [← Option.some.inj hstep]
    refine Or.inl ⟨⟨first, cls, trusts ++ [line], hlines, hcls, forall_concat htrusts hlast, ?_, hheld⟩, hcrt⟩
    rw [List.filterMap_append]
    rfl

theorem sound_step (h : Sound source read since s) (hstep : step p s line = some t) :
    ∃ read' since', read ++ (since ++ [line]) = read' ++ since' ∧ Sound source read' since' t := by
  cases hreading : s.reading with
  | body =>
    rw [step, hreading] at hstep
    exact ⟨read, _, rfl, sound_body hreading h hstep⟩
  | license => exact ⟨read, _, rfl, sound_license hreading h hstep⟩
  | distrust timestamp => exact ⟨read, _, rfl, sound_distrust hreading h hstep⟩
  | value => exact ⟨read, _, rfl, sound_value hreading h hstep⟩
  | trust levels =>
    rcases sound_trust hreading h hstep with hsound | hsound
    · exact ⟨read, _, rfl, hsound⟩
    · exact ⟨_, [], (List.append_nil _).symm, hsound⟩

theorem sound_finish (h : Sound source read since s) (hfinish : finish p s = some t) :
    ∃ read' since' rest, read ++ since = read' ++ since' ∧ t.crt = head source ++ rest ∧ Printed (read ++ since) read' rest := by
  obtain ⟨rest, hrest, hprinted⟩ := h.crt
  have hwithin := h.within
  unfold Within at hwithin
  unfold finish at hfinish
  cases hreading : s.reading with
  | body | license | value =>
    rw [hreading] at hfinish
    rw [← Option.some.inj hfinish]
    exact ⟨read, since, rest, rfl, hrest, hprinted⟩
  | distrust timestamp =>
    rw [hreading] at hfinish
    obtain ⟨valid, rfl⟩ := distrusted_eq_some hfinish
    exact ⟨read, since, rest, rfl, hrest, hprinted⟩
  | trust levels =>
    rw [hreading] at hfinish hwithin
    obtain ⟨first, cls, trusts, rfl, hcls, htrusts, rfl, hheld⟩ := hwithin
    have hlines : first ++ cls :: trusts = first ++ cls :: (trusts ++ []) := by rw [List.append_nil]
    rcases trusted_eq_some hfinish with rfl | ⟨hgrant, hsome, data, maxStringLength, hdata, rfl⟩
    · exact ⟨read, _, rest, rfl, hrest, hprinted⟩
    · obtain ⟨more, hmore, hentry⟩ := printed_trusted hlines hcls htrusts hheld hsome hgrant hdata h.crt maxStringLength
      exact ⟨read ++ (first ++ cls :: trusts), [], more, (List.append_nil _).symm, hmore, hentry⟩

/-- A file of two roots.  The first one is refused. -/
def smallFile : List Bytes :=
  [ascii "CKA_CLASS CK_OBJECT_CLASS CKO_CERTIFICATE", ascii "CKA_LABEL UTF8 \"Refused\"", ascii "CKA_VALUE MULTILINE_OCTAL",
    ascii "\\061", ascii "END", ascii "# Not Valid After : later", ascii "CKA_CLASS CK_OBJECT_CLASS CKO_NSS_TRUST",
    ascii "CKA_TRUST_SERVER_AUTH CK_TRUST CKT_NSS_NOT_TRUSTED", ascii "#",
    ascii "CKA_CLASS CK_OBJECT_CLASS CKO_CERTIFICATE", ascii "CKA_LABEL UTF8 \"Root\"", ascii "CKA_VALUE MULTILINE_OCTAL",
    ascii "\\060\\000", ascii "END", ascii "# Not Valid After : later", ascii "CKA_CLASS CK_OBJECT_CLASS CKO_NSS_TRUST",
    ascii "CKA_TRUST_SERVER_AUTH CK_TRUST CKT_NSS_TRUSTED_DELEGATOR", ascii "#"]

end Sound

end IopHal.CaBundle
