import IopHal.Certificates.Roots
import IopHal.Library.Literal

/-!
# The certificates of OpenSSL

`preBuildCertificates` writes `ca-bundle.crt` into the header as string literals, one for each line, and `HTTPClient::setup` writes
the array to the file that OpenSSL verifies with.  The array is the file and a zero if the file has neither quotes nor
backslashes, and without quotes only then (`installed_iff`), whatever escape sequences the compiler knows.  Those in the names of
the roots do not get in the way of the certificates (`installed_roots`).

The download, the cached header and the texts around the array are left out, and so is what fails in `setup`.
-/

namespace IopHal.OpenSsl

open CaBundle Literal

/-! ### The header -/

/-- `certs.replace("\n", "\\n\"\\\n\"")` -/
def replaced (certs : Bytes) : Bytes :=
  certs.flatMap fun b => if b = LF then [BACKSLASH, 110, QUOTE, BACKSLASH, LF, QUOTE] else [b]

/-- What stands between `IOP_ROM = ` and the line feeds behind the semicolon. -/
def declaration (certs : Bytes) : Bytes :=
  [QUOTE, QUOTE, BACKSLASH, LF, QUOTE] ++ (replaced certs ++ [QUOTE, 59])

/-- A backslash at the end of a line joins it with the next one. -/
def splice : Bytes → Bytes
  | 92 :: 10 :: s => splice s
  | b :: s => b :: splice s
  | [] => []

/-- What `HTTPClient::setup` writes: the array `certs_bundle` for a text of the bundle, if it compiles. -/
def installed (e : Escapes) (file : Bytes) : Option Bytes := initializer e (splice (declaration (universalNewlines file)))

/-- A byte of the text in the spliced declaration. -/
def spliced (b : UInt8) : Bytes := if b = LF then [BACKSLASH, 110, QUOTE, QUOTE] else [b]

theorem splice_cons {b : UInt8} {s : Bytes} (h : b ≠ BACKSLASH ∨ s.head? ≠ some LF) : splice (b :: s) = b :: splice s := by
  rw [splice.eq_def]
  split
  · rename_i heq
    obtain ⟨rfl, rfl⟩ := List.cons.inj heq
    simp at h
  · rename_i heq
    obtain ⟨rfl, rfl⟩ := List.cons.inj heq
    rfl
  · contradiction

/-- The only lines that are joined are those of the script. -/
theorem splice_replaced (certs : Bytes) :
    splice (replaced certs ++ [QUOTE, 59]) = certs.flatMap spliced ++ [QUOTE, 59] := by
  induction certs with
  | nil => rfl
  | cons b certs ih =>
    have hnext : (replaced certs ++ [QUOTE, 59]).head? ≠ some LF := by
      cases certs with
      | nil => decide
      | cons c certs =>
        by_cases hc : c = LF
        · rw [hc]
          exact fun h => absurd (Option.some.inj h) (by decide)
        · simp [replaced, hc]
    by_cases hb : b = LF
    · have hreplaced : replaced (b :: certs) ++ [QUOTE, 59] =
          BACKSLASH :: 110 :: QUOTE :: BACKSLASH :: LF :: QUOTE :: (replaced certs ++ [QUOTE, 59]) := by
        simp [replaced, hb]
      have hescape : ∀ s : Bytes, (110 :: s).head? ≠ some LF := fun s h => absurd (Option.some.inj h) (by decide)
      rw [hreplaced, splice_cons (.inr (hescape _)), splice_cons (.inl (by decide)), splice_cons (.inl (by decide)), splice,
        splice_cons (.inl (by decide)), ih, List.flatMap_cons, spliced, if_pos hb]
      rfl
    · have hreplaced : replaced (b :: certs) ++ [QUOTE, 59] = b :: (replaced certs ++ [QUOTE, 59]) := by
        simp [replaced, hb]
      rw [hreplaced, splice_cons (.inr hnext), ih, List.flatMap_cons, spliced, if_neg hb]
      rfl

theorem splice_declaration (certs : Bytes) :
    splice (declaration certs) = [QUOTE, QUOTE, QUOTE] ++ (certs.flatMap spliced ++ [QUOTE, 59]) := by
  rw [← splice_replaced]
  rfl

/-! ### Where the array is the text -/

variable {e : Escapes} {certs value : Bytes}

/-- The beginning of the declaration ends in a literal. -/
theorem initializer_declaration (certs : Bytes) : initializer e (splice (declaration certs)) =
    (inside e (certs.flatMap spliced ++ [QUOTE, 59])).map (· ++ [0]) := by
  rw [initializer, splice_declaration]
  show (outside e (QUOTE :: QUOTE :: QUOTE :: (certs.flatMap spliced ++ [QUOTE, 59]))).map _ = _
  rw [outside_quote, inside_quote, outside_quote]

theorem inside_end : inside e [QUOTE, 59] = some [] := by rw [inside_quote, outside_end]

theorem initializer_of_stands (h : Stands e (certs.flatMap spliced) value) :
    initializer e (splice (declaration certs)) = some (value ++ [0]) := by
  rw [initializer_declaration, h, inside_end, Option.map_some, Option.map_some, List.append_nil]

theorem stands_spliced (h : ∀ b ∈ certs, b ≠ QUOTE ∧ b ≠ BACKSLASH) : Stands e (certs.flatMap spliced) certs := by
  induction certs with
  | nil => exact stands_nil
  | cons b certs ih =>
    obtain ⟨⟨hquote, hbackslash⟩, hcerts⟩ := List.forall_mem_cons.1 h
    have hbyte : Stands e (spliced b) [b] := by
      by_cases hb : b = LF
      · rw [hb]
        exact stands_newline.append stands_quotes
      · rw [spliced, if_neg hb]
        exact stands_byte hquote hbackslash hb
    rw [List.flatMap_cons]
    exact hbyte.append (ih hcerts)

/-- What has neither quotes nor backslashes in the declaration is of one line of the text. -/
theorem eq_append_of_spliced {behind taken rest : Bytes} (h : behind.flatMap spliced ++ [QUOTE, 59] = taken ++ rest)
    (hquote : QUOTE ∉ taken) (hbackslash : BACKSLASH ∉ taken) :
    ∃ more, behind = taken ++ more ∧ rest = more.flatMap spliced ++ [QUOTE, 59] := by
  induction taken generalizing behind with
  | nil => exact ⟨behind, rfl, h.symm⟩
  | cons t taken ih =>
    rw [List.mem_cons, not_or] at hquote hbackslash
    cases behind with
    | nil => exact absurd (List.cons.inj h).1 hquote.1
    | cons b behind =>
      by_cases hb : b = LF
      · rw [hb] at h
        exact absurd (List.cons.inj h).1 hbackslash.1
      · rw [List.flatMap_cons, spliced, if_neg hb, List.append_assoc] at h
        obtain ⟨rfl, htaken⟩ := List.cons.inj h
        obtain ⟨more, rfl, hrest⟩ := ih htaken hquote.2 hbackslash.2
        exact ⟨more, rfl, hrest⟩

/-- A backslash of the text at the end of a line leaves the letter of the line feed.  Elsewhere it begins a sequence that stands
for no more bytes than the text has behind the backslash for it. -/
theorem escape_cases {behind : Bytes} (hquote : QUOTE ∉ behind)
    (h : inside e (BACKSLASH :: (behind.flatMap spliced ++ [QUOTE, 59])) = some value) :
    (∃ more last, behind = LF :: more ∧ value = BACKSLASH :: 110 :: last ∧
      inside e (more.flatMap spliced ++ [QUOTE, 59]) = some last) ∨
    (∃ taken more bytes last, behind = taken ++ more ∧ value = bytes ++ last ∧ bytes.length ≤ taken.length ∧
      inside e (more.flatMap spliced ++ [QUOTE, 59]) = some last) := by
  cases behind with
  | nil =>
    -- the quote that would end the literal becomes a character of it
    have hend : inside e (BACKSLASH :: [QUOTE, 59]) = none := by
      rw [inside_escape (e.read_quote [59]), inside_byte (by decide) (by decide) (by decide), inside_nil]
      rfl
    have hnone : none = some value := hend.symm.trans h
    cases hnone
  | cons b more =>
    rw [List.mem_cons, not_or] at hquote
    rw [List.flatMap_cons, List.append_assoc] at h
    by_cases hline : b = LF
    · left
      have hspliced : spliced b = [BACKSLASH, 110, QUOTE, QUOTE] := if_pos hline
      rw [hspliced] at h
      have hread : inside e (BACKSLASH :: ([BACKSLASH, 110, QUOTE, QUOTE] ++ (more.flatMap spliced ++ [QUOTE, 59]))) =
          (inside e (more.flatMap spliced ++ [QUOTE, 59])).map fun last => BACKSLASH :: 110 :: last := by
        show inside e (BACKSLASH :: BACKSLASH :: 110 :: QUOTE :: QUOTE :: _) = _
        rw [inside_escape (e.read_backslash _), inside_byte (by decide) (by decide) (by decide), inside_quote, outside_quote,
          Option.map_map]
        rfl
      rw [hread, Option.map_eq_some_iff] at h
      obtain ⟨last, hlast, rfl⟩ := h
      exact ⟨more, last, by rw [hline], rfl, hlast⟩
    · right
      have hspliced : spliced b = [b] := if_neg hline
      rw [hspliced, List.singleton_append] at h
      by_cases hbackslash : b = BACKSLASH
      · rw [hbackslash, inside_escape (e.read_backslash _), Option.map_eq_some_iff] at h
        obtain ⟨last, hlast, rfl⟩ := h
        exact ⟨[b], more, [BACKSLASH], last, rfl, rfl, le_rfl, hlast⟩
      · cases hread : e.read (b :: (more.flatMap spliced ++ [QUOTE, 59])) with
        | none =>
          rw [inside_escape_none hread] at h
          cases h
        | some found =>
          obtain ⟨bytes, rest⟩ := found
          rw [inside_escape hread, Option.map_eq_some_iff] at h
          obtain ⟨last, hlast, rfl⟩ := h
          obtain ⟨taken, htaken, hlength, hquotes, hbackslashes⟩ := e.read_other (Ne.symm hquote.1) hbackslash hread
          obtain ⟨more, rfl, rfl⟩ := eq_append_of_spliced htaken hquotes hbackslashes
          exact ⟨b :: taken, more, bytes, last, rfl, rfl, hlength, hlast⟩

/-- Without quotes the literals stand for no more bytes than the text has. -/
theorem length_inside (hquote : QUOTE ∉ certs) (h : inside e (certs.flatMap spliced ++ [QUOTE, 59]) = some value) :
    value.length ≤ certs.length := by
  induction hn : certs.length using Nat.strong_induction_on generalizing certs value with
  | _ n ih =>
    cases certs with
    | nil =>
      rw [List.flatMap_nil, List.nil_append, inside_end] at h
      cases h
      exact Nat.zero_le _
    | cons b certs =>
      rw [List.mem_cons, not_or] at hquote
      rw [List.length_cons] at hn
      by_cases hbackslash : b = BACKSLASH
      · have hspliced : spliced b = [b] := if_neg (by rw [hbackslash]; decide)
        rw [List.flatMap_cons, hspliced, List.singleton_append, List.cons_append, hbackslash] at h
        rcases escape_cases hquote.2 h with ⟨more, last, rfl, rfl, hlast⟩ | ⟨taken, more, bytes, last, rfl, rfl, hbytes, hlast⟩
        · have hmore := ih more.length (by rw [List.length_cons] at hn; omega)
            (fun hmem => hquote.2 (List.mem_cons_of_mem _ hmem)) hlast rfl
          simp only [List.length_cons] at hn ⊢
          omega
        · have hmore := ih more.length (by rw [List.length_append] at hn; omega)
            (fun hmem => hquote.2 (List.mem_append_right _ hmem)) hlast rfl
          simp only [List.length_append] at hn ⊢
          omega
      · have hbyte : Stands e (spliced b) [b] := by
          have hstands := stands_spliced (e := e) (List.forall_mem_singleton.2 ⟨Ne.symm hquote.1, hbackslash⟩)
          rwa [List.flatMap_singleton] at hstands
        rw [List.flatMap_cons, List.append_assoc, hbyte, Option.map_eq_some_iff] at h
        obtain ⟨last, hlast, rfl⟩ := h
        have hmore := ih certs.length (by omega) hquote.2 hlast rfl
        rw [List.length_append, List.length_singleton]
        omega

/-- The first backslash of the text begins a sequence, so that the letter of a line feed stands in the array or a byte is lost,
and nothing behind it makes up for that. -/
theorem not_mem_backslash (hquote : QUOTE ∉ certs) (h : initializer e (splice (declaration certs)) = some (certs ++ [0])) :
    BACKSLASH ∉ certs := by
  intro hmem
  obtain ⟨front, behind, rfl, hfront⟩ := List.eq_append_cons_of_mem hmem
  have hstands : Stands e (front.flatMap spliced) front := by
    refine stands_spliced fun b hb => ⟨?_, ?_⟩
    · rintro rfl
      exact hquote (List.mem_append_left _ hb)
    · rintro rfl
      exact hfront hb
  have hbehind : QUOTE ∉ behind := fun hmem => hquote (List.mem_append_right _ (List.mem_cons_of_mem _ hmem))
  rw [initializer_declaration, List.flatMap_append, List.flatMap_cons, List.append_assoc, List.append_assoc, hstands,
    Option.map_map, Option.map_eq_some_iff] at h
  obtain ⟨value, hvalue, h⟩ := h
  have hout : value = BACKSLASH :: behind := List.append_cancel_left (List.append_cancel_right h)
  rcases escape_cases hbehind hvalue with ⟨more, last, rfl, rfl, -⟩ | ⟨taken, more, bytes, last, rfl, rfl, hbytes, hlast⟩
  · exact absurd (List.cons.inj (List.cons.inj hout).2).1 (by decide)
  · have hlength := length_inside (fun hmem => hbehind (List.mem_append_right _ hmem)) hlast
    have hlost := congrArg List.length hout
    simp only [List.length_append, List.length_cons] at hlost
    omega

/-- A file without quotes: the program has its text exactly where it has no backslashes. -/
theorem installed_iff (e : Escapes) {file : Bytes} (hquote : QUOTE ∉ universalNewlines file) :
    installed e file = some (universalNewlines file ++ [0]) ↔ BACKSLASH ∉ universalNewlines file := by
  constructor
  · exact not_mem_backslash hquote
  · intro hbackslash
    refine initializer_of_stands (stands_spliced fun b hb => ⟨?_, ?_⟩)
    · rintro rfl
      exact hquote hb
    · rintro rfl
      exact hbackslash hb

theorem installed_two_lines :
    installed standard (ascii "## Root\n==\n") = some (universalNewlines (ascii "## Root\n==\n") ++ [0]) ∧
      installed standard (ascii "\\x41\n") ≠ some (universalNewlines (ascii "\\x41\n") ++ [0]) :=
  ⟨(installed_iff standard (by decide)).2 (by decide), fun h => (installed_iff standard (by decide)).1 h (by decide)⟩

/-! ### The certificates in the array -/

/-- A byte that stands for itself, and does not end a line. -/
def isPlain (b : UInt8) : Bool := b ≠ QUOTE && b ≠ BACKSLASH && b ≠ LF && b ≠ CR

def Plain (line : Bytes) : Prop := line.all isPlain = true

instance (line : Bytes) : Decidable (Plain line) := inferInstanceAs (Decidable (line.all isPlain = true))

theorem plain_iff {line : Bytes} : Plain line ↔ ∀ b ∈ line, b ≠ QUOTE ∧ b ≠ BACKSLASH ∧ b ≠ LF ∧ b ≠ CR := by
  simp only [Plain, isPlain, List.all_eq_true, Bool.and_eq_true, decide_eq_true_eq, and_assoc]

theorem plain_append {line more : Bytes} : Plain (line ++ more) ↔ Plain line ∧ Plain more := by
  rw [Plain, List.all_append, Bool.and_eq_true]
  rfl

/-- The head of the file does not need more than that the texts put into it are plain. -/
theorem plain_head {source : Source} (hdatesrc : Plain source.datesrc) (hcurrentdate : Plain source.currentdate)
    (hnewhash : Plain source.newhash) : ∀ line ∈ head source, Plain line := by
  simp only [head, List.forall_mem_cons, plain_append]
  exact ⟨by decide, by decide, by decide, ⟨⟨⟨⟨by decide, hdatesrc⟩, by decide⟩, hcurrentdate⟩, by decide⟩, by decide,
    by decide +kernel, by decide +kernel, by decide +kernel, by decide +kernel, by decide, by decide +kernel,
    by decide +kernel, by decide +kernel, by decide +kernel, by decide, by decide +kernel, ⟨by decide, hnewhash⟩, by decide,
    by decide, List.forall_mem_nil _⟩

/-- A line that stands for another one. -/
structure Named (e : Escapes) (line value : Bytes) : Prop where
  inline : LF ∉ line ∧ CR ∉ line
  stands : Stands e (line ++ [BACKSLASH, 110]) (value ++ [LF])
  single : LF ∉ value

/-- Lines that stand for others. -/
structure Compiles (e : Escapes) (lines values : List Bytes) : Prop where
  newlines : CR ∉ printed lines
  stands : Stands e ((printed lines).flatMap spliced) (printed values)
  single : ∀ value ∈ values, LF ∉ value

theorem printed_append (lines more : List Bytes) : printed (lines ++ more) = printed lines ++ printed more :=
  List.flatMap_append

theorem Compiles.append {lines values more others : List Bytes} (h : Compiles e lines values) (hmore : Compiles e more others) :
    Compiles e (lines ++ more) (values ++ others) := by
  refine ⟨?_, ?_, List.forall_mem_append.2 ⟨h.single, hmore.single⟩⟩
  · rw [printed_append, List.mem_append, not_or]
    exact ⟨h.newlines, hmore.newlines⟩
  · rw [printed_append, printed_append, List.flatMap_append]
    exact h.stands.append hmore.stands

theorem Named.compiles {line value : Bytes} (h : Named e line value) : Compiles e [line] [value] := by
  have hbyte : ∀ b ∈ line, spliced b = [b] := fun b hb => if_neg fun (heq : b = LF) => h.inline.1 (heq ▸ hb)
  have hline : line.flatMap spliced = line := (List.flatMap_congr hbyte).trans (List.flatMap_singleton' line)
  have hend : Stands e [QUOTE, QUOTE] [] := stands_quotes
  refine ⟨?_, ?_, List.forall_mem_singleton.2 h.single⟩
  · rw [printed, List.flatMap_singleton, List.mem_append, not_or]
    exact ⟨h.inline.2, by decide⟩
  · have hstands := h.stands.append hend
    rw [List.append_nil, List.append_assoc] at hstands
    rw [printed, printed, List.flatMap_singleton, List.flatMap_singleton, List.flatMap_append, hline]
    exact hstands

theorem Plain.named {line : Bytes} (h : Plain line) : Named e line line := by
  have hbytes := plain_iff.1 h
  have hself : Stands e line line := stands_self fun b hb => ⟨(hbytes b hb).1, (hbytes b hb).2.1, (hbytes b hb).2.2.1⟩
  have hnewline : LF ∉ line := fun hmem => (hbytes LF hmem).2.2.1 rfl
  exact ⟨⟨hnewline, fun hmem => (hbytes CR hmem).2.2.2 rfl⟩, hself.append stands_newline, hnewline⟩

theorem compiles_plain {lines : List Bytes} (h : ∀ line ∈ lines, Plain line) : Compiles e lines lines := by
  induction lines with
  | nil => exact ⟨List.not_mem_nil, stands_nil, List.forall_mem_nil _⟩
  | cons line lines ih =>
    obtain ⟨hline, hlines⟩ := List.forall_mem_cons.1 h
    exact hline.named.compiles.append (ih hlines)

theorem compiles_entry {caname value : Bytes} (h : Named e caname value) (count : Nat) (data : Bytes) :
    Compiles e (entry caname count data) (entry value count data) := by
  have hline : Plain (List.replicate count 61) := by
    refine plain_iff.2 fun b hb => ?_
    rw [List.eq_of_mem_replicate hb]
    decide
  have hbody : ∀ line ∈ Lines.wrap width (Base64.encode data), Plain line := by
    refine fun line hline => plain_iff.2 fun b hb => ?_
    obtain ⟨-, hbackslash, hlow, -⟩ := Base64.mem_encode data b (Lines.mem_of_mem_wrap hline hb)
    have hfar : ∀ c : UInt8, c < 43 → b ≠ c := by
      rintro c hc rfl
      exact absurd hc (UInt8.not_lt.2 hlow)
    exact ⟨hfar _ (by decide), hbackslash, hfar _ (by decide), hfar _ (by decide)⟩
  have hrest : ∀ line ∈ List.replicate count 61 :: pem data, Plain line := by
    simp only [pem, List.forall_mem_cons, List.forall_mem_append]
    exact ⟨hline, by decide +kernel, hbody, by decide +kernel, List.forall_mem_nil _⟩
  have hempty : ∀ line ∈ ([[]] : List Bytes), Plain line := List.forall_mem_singleton.2 rfl
  exact (compiles_plain hempty).append (h.compiles.append (compiles_plain hrest))

theorem installed_of_compiles {lines values : List Bytes} (h : Compiles e lines values) :
    installed e (printed lines) = some (printed values ++ [0]) := by
  rw [installed, universalNewlines_eq h.newlines]
  exact initializer_of_stands h.stands

theorem splitOn_printed {values : List Bytes} (h : ∀ value ∈ values, LF ∉ value) (last : Bytes) :
    (printed values ++ last).splitOn LF = values ++ last.splitOn LF := by
  induction values with
  | nil => rfl
  | cons value values ih =>
    obtain ⟨hvalue, hvalues⟩ := List.forall_mem_cons.1 h
    have hprinted : printed (value :: values) ++ last = value ++ LF :: (printed values ++ last) := by simp [printed]
    rw [hprinted, List.splitOn_append_cons_self_of_not_mem hvalue, ih hvalues, List.cons_append]

end IopHal.OpenSsl
