import IopHal.Client.Segmentation

/-!
# Header lookup

The header lines of a well-formed head are fields `name: value`.  A lookup finds the value of the first line at which
the text of the read begins with the key (`lookup_collectedLines`), which need not be the first field of that name:
`header_eq_fieldValue_iff` says exactly when it is.
-/

namespace IopHal

open Feed Find Framing

/-- A field `name:raw` of a response head -/
structure HeaderField where
  name : Bytes
  raw : Bytes
  name_ne : name ≠ []
  name_text : IsText name ∧ COLON ∉ name
  raw_text : IsText raw

namespace HeaderField

def line (f : HeaderField) : Bytes := f.name ++ COLON :: f.raw

/-- The text after the colon and the spaces behind it -/
def value (f : HeaderField) : Bytes := f.raw.dropWhile (· = SP)

theorem cr_not_mem_line (f : HeaderField) : CR ∉ f.line := by
  simp only [line, List.mem_append, List.mem_cons, not_or]
  exact ⟨f.name_text.1.1.1, by decide, f.raw_text.1.1⟩

end HeaderField

/-- The value of the first field whose whole name is `key`, ignoring case. -/
def fieldValue (key : Bytes) (fields : List HeaderField) : Option Bytes :=
  (fields.find? fun f => lower f.name = lower key).map HeaderField.value

/-- The text of the fields, the blank line and the part `b` of the body. -/
def fieldText (fields : List HeaderField) (b : Bytes) : Bytes :=
  unlines crlf (fields.map HeaderField.line ++ [[]]) ++ b

/-- The first header line at which the text begins with the key is a field of that name, or the value is the same by
chance. -/
def FirstMatchNamed (key b : Bytes) : List HeaderField → Prop
  | [] => True
  | f :: fields =>
    if BeginsWith key (fieldText (f :: fields) b) then
      lower f.name = key ∨ fieldValue key fields = some (valueBehind key (fieldText (f :: fields) b))
    else FirstMatchNamed key b fields

instance decidableFirstMatchNamed (key b : Bytes) : (fields : List HeaderField) → Decidable (FirstMatchNamed key b fields)
  | [] => isTrue trivial
  | f :: fields =>
    have := decidableFirstMatchNamed key b fields
    inferInstanceAs (Decidable (if BeginsWith key (fieldText (f :: fields) b) then
      lower f.name = key ∨ fieldValue key fields = some (valueBehind key (fieldText (f :: fields) b))
    else FirstMatchNamed key b fields))

private theorem fieldText_cons (f : HeaderField) (fields : List HeaderField) (b : Bytes) :
    fieldText (f :: fields) b = f.line ++ crlf ++ fieldText fields b := by
  simp [fieldText]

/-- The text begins with the name of its first field and the value stands behind it. -/
private theorem begins_of_named {key : Bytes} (hkey : NUL ∉ key) {f : HeaderField} (hf : lower f.name = key) (t : Bytes) :
    BeginsWith key (f.line ++ crlf ++ t) ∧ valueBehind key (f.line ++ crlf ++ t) = f.value := by
  have hlen : key.length = f.name.length := by rw [← hf, length_lower]
  have hle : key.length ≤ f.line.length := by simp [HeaderField.line, hlen]
  have htake : f.line.take key.length = f.name := by rw [HeaderField.line, hlen, List.take_left']; rfl
  have hdrop : f.line.drop key.length = COLON :: f.raw := by rw [HeaderField.line, hlen, List.drop_left']; rfl
  constructor
  · rw [beginsWith_line hle, htake, cview_eq_self hkey, hf]
  · rw [valueBehind_line hle f.cr_not_mem_line, hdrop]
    rfl

private theorem fieldValue_cons_named {key : Bytes} {f : HeaderField} (h : lower f.name = lower key)
    (fields : List HeaderField) : fieldValue key (f :: fields) = some f.value := by
  simp [fieldValue, h]

private theorem fieldValue_cons_other {key : Bytes} {f : HeaderField} (h : lower f.name ≠ lower key)
    (fields : List HeaderField) : fieldValue key (f :: fields) = fieldValue key fields := by
  simp [fieldValue, h]

theorem firstValueAt_eq_fieldValue_iff {key : Bytes} (hnul : NUL ∉ key) (hlower : lower key = key) (b : Bytes)
    (fields : List HeaderField) :
    firstValueAt key (fields.map HeaderField.line) (crlf ++ b) = fieldValue key fields ↔ FirstMatchNamed key b fields := by
  induction fields with
  | nil => simp [firstValueAt, fieldValue, FirstMatchNamed]
  | cons f fields ih =>
    have htext : unlines crlf (f.line :: fields.map HeaderField.line) ++ (crlf ++ b) = fieldText (f :: fields) b := by
      simp [fieldText]
    rw [List.map_cons, firstValueAt, htext, FirstMatchNamed, valueAt]
    by_cases hnamed : lower f.name = key
    · have hfield := begins_of_named hnul hnamed (fieldText fields b)
      rw [← fieldText_cons] at hfield
      rw [if_pos hfield.1, if_pos hfield.1, hfield.2, fieldValue_cons_named (by rw [hlower, hnamed])]
      simp [hnamed]
    · rw [fieldValue_cons_other (by rw [hlower]; exact hnamed)]
      by_cases hbegin : BeginsWith key (fieldText (f :: fields) b)
      · rw [if_pos hbegin, if_pos hbegin]
        simp [hnamed, eq_comm]
      · rw [if_neg hbegin, if_neg hbegin]
        simpa using ih

/-! ### Calls -/

/-- What a call returns when the whole head comes in one read that does not fill the buffer. -/
theorem outcome_head_read (keys : List Bytes) (m : HttpResponse) {c : Chunk bufferSize} {cs : List (Chunk bufferSize)}
    {b : Bytes} (hc : c.1 = m.head ++ b) (hbody : m.body = b ++ bytes cs) (hlen : c.1.length < bufferSize) :
    Parser.outcome keys .statusLine (reads (c :: cs)) =
      .returned (.ofHeaders (collectedLines keys m.headerLines (crlf ++ b) []) m.body m.status) := by
  have hrest : c.1 = m.statusLine ++ crlf ++ (unlines crlf m.headerLines ++ (crlf ++ b)) := by
    rw [hc, HttpResponse.head, HttpResponse.headLines]
    simp
  have hlf : LF ∈ c.1 := by rw [hrest]; simp
  have hu : ¬ Unterminated c.1 := fun h => absurd h.1 (by omega)
  have hbounded : Bounded keys (unlines crlf m.headerLines ++ (crlf ++ b)) := by
    refine Or.inl ?_
    rw [hrest, List.length_append] at hlen
    omega
  have hread : Parser.statusLine.read keys c.1 =
      .ok (.payload m.status (collectedLines keys m.headerLines (crlf ++ b) []) b) := by
    have hle := c.2.2
    rw [read_statusLine keys hlf]
    rw [hrest] at hle hu ⊢
    rw [m.scanStatus_eq hle, if_neg hu, Except.bind, scanHead_lines [] m.headers_cr (Or.inl hbounded), scanHead_blank]
    rfl
  refine outcome_of_feed ?_
  rw [feed_reads_cons hread, feed_payload, ← hbody]

/-- A lookup finds the field of that name exactly when no other line gets in between. -/
theorem header_eq_fieldValue_iff (ctx : SessionContext) (method data : Bytes) {keys : List Bytes}
    (hctx : ctx.headersToCollect = headersToCollect keys) (m : HttpResponse) {fields : List HeaderField}
    (hm : m.headerLines = fields.map HeaderField.line) {c : Chunk bufferSize} {cs : List (Chunk bufferSize)} {b : Bytes}
    (hc : c.1 = m.head ++ b) (hbody : m.body = b ++ bytes cs) (hlen : c.1.length < bufferSize) {key : Bytes}
    (hkey : key ∈ keys) (k : StaticString) (hk : lower k.text = lower key) :
    (∃ r, (sendRequest ctx .gotIp method data (reads (c :: cs))).outcome = .returned r ∧
        r.header k = fieldValue k.text fields) ↔
      FirstMatchNamed (lower k.text) b fields := by
  have hmem : lower k.text ∈ ctx.headersToCollect := by
    rw [hctx, hk]
    exact List.mem_map_of_mem hkey
  have hnul : NUL ∉ lower k.text := fun h => k.terminated ((mem_lower_iff (by decide)).1 h)
  have hcase : fieldValue k.text fields = fieldValue (lower k.text) fields := by simp [fieldValue]
  have hlookup : (Response.ofHeaders (collectedLines ctx.headersToCollect m.headerLines (crlf ++ b) []) m.body
      m.status).header k = firstValueAt (lower k.text) (fields.map HeaderField.line) (crlf ++ b) := by
    rw [Response.header, Response.ofHeaders, lookup_collectedLines hmem, hm]
    simp
  rw [← firstValueAt_eq_fieldValue_iff hnul (lower_lower _), sendRequest_outcome,
    outcome_head_read ctx.headersToCollect m hc hbody hlen, hcase]
  constructor
  · rintro ⟨r, hr, h⟩
    cases hr
    rwa [hlookup] at h
  · intro h
    exact ⟨_, rfl, by rw [hlookup, h]⟩

/-- The answer to a request for an update with the header lines `fields` -/
def versionResponse (fields : List HeaderField) : HttpResponse :=
  { updateResponse with
    headerLines := fields.map HeaderField.line
    body := ascii "image"
    headers_text := by
      intro l hl
      obtain ⟨f, -, rfl⟩ := List.mem_map.1 hl
      have hcolon : IsText [COLON] := by decide
      have hline := f.name_text.1.append (hcolon.append f.raw_text)
      refine ⟨?_, by simpa [HeaderField.line] using hline⟩
      simp [HeaderField.line] }

def latestVersion : HeaderField where
  name := ascii "Latest_Version"
  raw := ascii "  a1"
  name_ne := by decide
  name_text := by decide
  raw_text := by decide

def latestVersionOld : HeaderField where
  name := ascii "LATEST_VERSION_OLD"
  raw := ascii " 5"
  name_ne := by decide
  name_text := by decide
  raw_text := by decide

theorem header_latest_version :
    ∃ r, (sendRequest updateSession .gotIp (ascii "GET") [] (reads
        [⟨(versionResponse [latestVersion, latestVersionOld]).render, by decide⟩])).outcome = .returned r ∧
      r.header ⟨ascii "latest_VERSION", by decide⟩ = some (ascii "a1") :=
  have hctx : updateSession.headersToCollect = headersToCollect [ascii "LATEST_VERSION"] := rfl
  have hm : (versionResponse [latestVersion, latestVersionOld]).headerLines =
      [latestVersion, latestVersionOld].map HeaderField.line := rfl
  (header_eq_fieldValue_iff updateSession _ _ hctx _ hm (b := ascii "image") (by decide) (by decide) (by decide)
    (List.mem_singleton_self _) ⟨ascii "latest_VERSION", by decide⟩ (by decide)).2 (by decide)

/-- A name that only begins with the key answers the lookup. -/
theorem header_of_longer_name :
    let out := (sendRequest updateSession .gotIp (ascii "GET") [] (reads
      [⟨(versionResponse [latestVersionOld]).render, by decide⟩])).outcome
    let k : StaticString := ⟨ascii "LATEST_VERSION", by decide⟩
    fieldValue k.text [latestVersionOld] = none ∧
      (∃ r, out = .returned r ∧ r.header k = some (ascii "_OLD: 5")) ∧
      ¬ ∃ r, out = .returned r ∧ r.header k = fieldValue k.text [latestVersionOld] := by
  intro out k
  have hout : out = .returned (.ofHeaders (collectedLines updateSession.headersToCollect
      [latestVersionOld.line] (crlf ++ ascii "image") []) (ascii "image") 200) := by
    have hbody : (versionResponse [latestVersionOld]).body = ascii "image" ++ bytes [] := by decide
    have hrun := outcome_head_read updateSession.headersToCollect (versionResponse [latestVersionOld])
      (c := ⟨(versionResponse [latestVersionOld]).render, by decide⟩) rfl hbody (by decide)
    rwa [← sendRequest_outcome updateSession (ascii "GET") []] at hrun
  refine ⟨by decide, ⟨_, hout, by decide⟩, ?_⟩
  rintro ⟨r, hr, h⟩
  rw [hout] at hr
  cases hr
  revert h
  decide

end IopHal
