import IopHal.Bytes
import IopHal.Library.Framing

/-!
# HTTP messages

The messages that a peer may send: a response head of a status line, header lines and a blank line, with a body behind
it, and the same for requests.  A value carries the proof that it is well formed, so `render` gives exactly the byte
strings in question.  Nothing here is translated from the source: these are the inputs its parsers are meant for.
-/

namespace IopHal

open Framing

/-- A line holds no line terminator. -/
def IsLine (l : Bytes) : Prop := CR ∉ l ∧ LF ∉ l

/-- The text of a response head holds no string terminator either. -/
def IsText (l : Bytes) : Prop := IsLine l ∧ NUL ∉ l

instance (l : Bytes) : Decidable (IsLine l) := inferInstanceAs (Decidable (_ ∧ _))

instance (l : Bytes) : Decidable (IsText l) := inferInstanceAs (Decidable (_ ∧ _))

theorem IsLine.append {l l' : Bytes} (h : IsLine l) (h' : IsLine l') : IsLine (l ++ l') := by
  simp only [IsLine, List.mem_append, not_or] at *
  exact ⟨⟨h.1, h'.1⟩, h.2, h'.2⟩

theorem IsText.append {l l' : Bytes} (h : IsText l) (h' : IsText l') : IsText (l ++ l') := by
  refine ⟨h.1.append h'.1, ?_⟩
  simp only [List.mem_append, not_or]
  exact ⟨h.2, h'.2⟩

theorem isText_of_digits {ds : Bytes} (h : ∀ d ∈ ds, isDigit d) : IsText ds := by
  refine ⟨⟨?_, ?_⟩, ?_⟩ <;> intro hm <;> exact absurd (h _ hm) (by decide)

/-- The last digit of `HTTP/1.1` -/
theorem isDigit_one : isDigit 49 = true := by decide

/-- A line cut before its end has no newline. -/
theorem lf_not_mem_of_broken {l p q : Bytes} (hl : LF ∉ l) (hpq : p ++ q = l ++ crlf) (hq : q ≠ []) : LF ∉ p := by
  obtain ⟨q', x, rfl⟩ := (List.eq_nil_or_concat q).resolve_left hq
  rw [List.concat_eq_append, ← List.append_assoc, show l ++ crlf = (l ++ [CR]) ++ [LF] by simp] at hpq
  have hp : p ++ q' = l ++ [CR] := (List.append_inj' hpq rfl).1
  intro h
  have hmem : LF ∈ l ++ [CR] := hp ▸ List.mem_append_left _ h
  rcases List.mem_append.1 hmem with h | h
  · exact hl h
  · revert h; decide

/-- A cut through the lines of a head, the blank line and the body falls into the body, behind a line, or into a line;
then what stands of that line has no newline. -/
theorem head_cases {ls : List Bytes} (hls : ∀ l ∈ ls, IsLine l) {c t body : Bytes}
    (h : c ++ t = unlines crlf (ls ++ [[]]) ++ body) :
    (∃ b, c = unlines crlf (ls ++ [[]]) ++ b ∧ body = b ++ t) ∨
    (∃ ls₁ ls₂, ls = ls₁ ++ ls₂ ∧ c = unlines crlf ls₁ ∧ t = unlines crlf (ls₂ ++ [[]]) ++ body) ∨
    (∃ ls₁ l ls₂ p q, ls ++ [[]] = ls₁ ++ l :: ls₂ ∧ (∀ l' ∈ ls₁, l' ∈ ls) ∧ c = unlines crlf ls₁ ++ p ∧
      p ++ q = l ++ crlf ∧ p ≠ [] ∧ q ≠ [] ∧ LF ∉ p ∧ t ≠ []) := by
  rcases prefix_cases crlf (ls ++ [[]]) h with ⟨ls₁, ls₂, hsplit, hc, ht⟩ | ⟨b, hc, -, hbody⟩ |
    ⟨ls₁, l, ls₂, p, q, hsplit, hc, hpq, hp, hq, ht⟩
  · rcases split_append_singleton hsplit with ⟨rfl, rfl⟩ | ⟨ls₂, rfl, rfl⟩
    · exact Or.inl ⟨[], by simpa using hc, by simpa using ht.symm⟩
    · exact Or.inr (Or.inl ⟨ls₁, ls₂, rfl, hc, ht⟩)
  · exact Or.inl ⟨b, hc, hbody⟩
  · -- the broken line may be the blank one
    have hmem : ∀ l' ∈ ls₁, l' ∈ ls := by
      rcases split_append_singleton hsplit with ⟨-, h⟩ | ⟨ls₂', rfl, -⟩
      · simp at h
      · exact fun l' hl' => List.mem_append_left _ hl'
    have hl : LF ∉ l := by
      have hin : l ∈ ls ++ [[]] := hsplit ▸ by simp
      rcases List.mem_append.1 hin with hl | hl
      · exact (hls l hl).2
      · rw [List.mem_singleton.1 hl]
        simp
    exact Or.inr (Or.inr ⟨ls₁, l, ls₂, p, q, hsplit, hmem, hc, hpq, hp, hq, lf_not_mem_of_broken hl hpq hq,
      by simp [ht, hq]⟩)

/-! ### Responses -/

/-- A response `HTTP/1.x SP code SP reason CRLF`, header lines, a blank line and a body. -/
structure HttpResponse where
  minor : UInt8
  code : Bytes
  reason : Bytes
  headerLines : List Bytes
  body : Bytes
  minor_digit : isDigit minor
  code_digits : ∀ d ∈ code, isDigit d
  code_length : code.length ≤ 9
  code_pos : 0 < digitsValue code
  reason_text : IsText reason
  headers_text : ∀ l ∈ headerLines, l ≠ [] ∧ IsText l

namespace HttpResponse

variable (m : HttpResponse)

/-- `HTTP/1.x` and a space -/
def version : Bytes := ascii "HTTP/1." ++ [m.minor, SP]

def statusLine : Bytes := m.version ++ (m.code ++ SP :: m.reason)

/-- The lines of the head, the blank one included. -/
def headLines : List Bytes := m.statusLine :: (m.headerLines ++ [[]])

def head : Bytes := unlines crlf m.headLines

def render : Bytes := m.head ++ m.body

theorem length_version : m.version.length = 9 := rfl

theorem statusLine_text : IsText m.statusLine := by
  have hversion : IsText (ascii "HTTP/1.") := by decide
  have hminor : IsText [m.minor] := isText_of_digits (by simpa using m.minor_digit)
  have hsp : IsText [SP] := by decide
  have h := ((hversion.append hminor).append hsp).append
    ((isText_of_digits m.code_digits).append (hsp.append m.reason_text))
  simpa [statusLine, version] using h

theorem headers_cr : ∀ l ∈ m.headerLines, l ≠ [] ∧ CR ∉ l := fun l hl =>
  ⟨(m.headers_text l hl).1, (m.headers_text l hl).2.1.1⟩

theorem code_ne_nil : m.code ≠ [] := by
  intro h
  have := m.code_pos
  simp [h, digitsValue] at this

end HttpResponse

/-! ### Requests -/

inductive Method
  | get
  | post
  | options
  deriving DecidableEq

/-- The word that names a method in a request line. -/
def Method.word : Method → Bytes
  | get => ascii "GET"
  | post => ascii "POST"
  | options => ascii "OPTIONS"

/-- A request `method SP target SP HTTP/1.x CRLF`, header lines, a blank line and a body. -/
structure HttpRequest where
  method : Method
  target : Bytes
  minor : UInt8
  headerLines : List Bytes
  body : Bytes
  target_ne : target ≠ []
  target_line : IsLine target ∧ SP ∉ target
  minor_digit : isDigit minor
  headers_line : ∀ l ∈ headerLines, l ≠ [] ∧ IsLine l

namespace HttpRequest

variable (m : HttpRequest)

def requestLine : Bytes := m.method.word ++ SP :: (m.target ++ SP :: (ascii "HTTP/1." ++ [m.minor]))

/-- The header lines, each ended by CRLF, the blank line and the body. -/
def afterRequestLine : Bytes := unlines crlf (m.headerLines ++ [[]]) ++ m.body

def render : Bytes := m.requestLine ++ crlf ++ m.afterRequestLine

theorem requestLine_line : IsLine m.requestLine := by
  have hword : IsLine m.method.word := by cases m.method <;> decide
  have hsp : IsLine [SP] := by decide
  have hversion : IsLine (ascii "HTTP/1.") := by decide
  have hminor : IsLine [m.minor] := (isText_of_digits (by simpa using m.minor_digit)).1
  have h := hword.append (hsp.append (m.target_line.1.append (hsp.append (hversion.append hminor))))
  simpa [requestLine] using h

theorem headers_cr : ∀ l ∈ m.headerLines, l ≠ [] ∧ CR ∉ l := fun l hl =>
  ⟨(m.headers_line l hl).1, (m.headers_line l hl).2.1⟩

end HttpRequest

end IopHal
