import IopHal.Library.Find

/-!
# A reader of HTTP/1.0 messages

What a peer makes of the bytes of a request or a response: lines that end with CR LF, a first line of words, header
fields up to an empty line, and everything behind it as the body.  A field is a name up to the first colon, and a value
behind it without one leading space.

`readMessage_render` is the fact about rendering that both kinds of message need: the parts are read back as they are if
no name has a colon in it and no line has a line end.
-/

namespace Http

open Find

/-- A header field: its name and its value. -/
abbrev Field := List UInt8 × List UInt8

abbrev lineEnd : List UInt8 := [13, 10]

/-- The first line, and what follows its end. -/
def readLine (s : List UInt8) : Option (List UInt8 × List UInt8) :=
  (find lineEnd s).map fun n => (s.take n, s.drop (n + 2))

/-- The text before the first space, and what follows it. -/
def readWord (line : List UInt8) : Option (List UInt8 × List UInt8) :=
  (find [32] line).map fun n => (line.take n, line.drop (n + 1))

def readField (line : List UInt8) : Option Field :=
  (find [58] line).map fun n =>
    (line.take n, if (line.drop (n + 1)).head? = some 32 then (line.drop (n + 1)).tail else line.drop (n + 1))

/-- The header fields up to an empty line, and what follows it.  Each line takes one of `fuel`. -/
def readFields : ℕ → List UInt8 → Option (List Field × List UInt8)
  | 0, _ => none
  | fuel + 1, s =>
    (readLine s).bind fun l =>
      if l.1 = [] then some ([], l.2)
      else (readField l.1).bind fun f => (readFields fuel l.2).map fun r => (f :: r.1, r.2)

/-- A message.  The three parts of the first line are the method, the target and the version of a request, or the
version, the code and the reason of a response. -/
structure Message where
  first : List UInt8
  second : List UInt8
  third : List UInt8
  fields : List Field
  body : List UInt8
  deriving DecidableEq

def readMessage (s : List UInt8) : Option Message :=
  (readLine s).bind fun l =>
    (readWord l.1).bind fun first =>
      (readWord first.2).bind fun second =>
        (readFields (l.2.length + 1) l.2).map fun r => ⟨first.1, second.1, second.2, r.1, r.2⟩

/-! ### Rendering -/

def renderField (f : Field) : List UInt8 := f.1 ++ [58, 32] ++ f.2 ++ lineEnd

def render (fields : List Field) : List UInt8 := fields.flatMap renderField

/-- The name has no colon in it, and the line no line end. -/
def Readable (f : Field) : Prop := 58 ∉ f.1 ∧ ¬ lineEnd <:+: f.1 ++ [58, 32] ++ f.2

/-- A line end at the front stands in the line itself if what follows the line does not begin with its second half. -/
theorem lineEnd_prefix_of_append {line rest : List UInt8} {c : UInt8} (hrest : rest.head? ≠ some 10)
    (h : lineEnd <+: c :: (line ++ rest)) : lineEnd <+: c :: line := by
  obtain ⟨rfl, htail⟩ := List.cons_prefix_cons.1 h
  cases line with
  | nil =>
    cases rest with
    | nil => exact absurd htail.length_le (by decide)
    | cons d rest => exact absurd (congrArg some (List.cons_prefix_cons.1 htail).1.symm) hrest
  | cons d line =>
    obtain ⟨rfl, -⟩ := List.cons_prefix_cons.1 htail
    exact List.cons_prefix_cons.2 ⟨rfl, List.cons_prefix_cons.2 ⟨rfl, List.nil_prefix⟩⟩

/-- Before a line end, a text that has none in itself is a line. -/
theorem find_lineEnd {line : List UInt8} (h : ¬ lineEnd <:+: line) (rest : List UInt8) :
    find lineEnd (line ++ lineEnd ++ rest) = some line.length := by
  induction line with
  | nil => exact find_of_isPrefix (List.prefix_append _ _)
  | cons c line ih =>
    rw [List.infix_cons_iff, not_or] at h
    have hprefix : ¬ lineEnd <+: c :: (line ++ lineEnd ++ rest) := by
      intro hp
      rw [List.append_assoc] at hp
      exact h.1 (lineEnd_prefix_of_append (by simp) hp)
    rw [List.cons_append, List.cons_append, find_cons_of_not_isPrefix hprefix, ih h.2]
    rfl

theorem not_lineEnd_inside {line : List UInt8} (h : 13 ∉ line) : ¬ lineEnd <:+: line :=
  fun hinside => h (hinside.subset List.mem_cons_self)

/-- A text that begins with neither half of a line end, and has none in itself, adds none to a line. -/
theorem lineEnd_infix_append_iff {line rest : List UInt8} {c : UInt8} (hc : c ≠ 10) (hrest : 13 ∉ c :: rest) :
    lineEnd <:+: line ++ c :: rest ↔ lineEnd <:+: line := by
  constructor
  · intro h
    induction line with
    | nil => exact absurd h (not_lineEnd_inside hrest)
    | cons d line ih =>
      rw [List.cons_append, List.infix_cons_iff] at h
      rw [List.infix_cons_iff]
      rcases h with h | h
      · left
        apply lineEnd_prefix_of_append _ h
        rw [List.head?_cons]
        exact fun heq => hc (Option.some.inj heq)
      · exact Or.inr (ih h)
  · intro h
    exact h.trans (List.prefix_append _ _).isInfix

theorem lineEnd_infix_skip_iff {pre line : List UInt8} (h : 13 ∉ pre) :
    lineEnd <:+: pre ++ line ↔ lineEnd <:+: line := by
  rw [← find_isSome_iff, ← find_isSome_iff, find_append_skip h, Option.isSome_map]

theorem readable_of_lines {name value : List UInt8} (hcolon : 58 ∉ name) (hname : 13 ∉ name) (hvalue : 13 ∉ value) :
    Readable (name, value) := by
  refine ⟨hcolon, not_lineEnd_inside ?_⟩
  simp only [List.mem_append, not_or]
  exact ⟨⟨hname, by decide⟩, hvalue⟩

theorem readLine_append {line : List UInt8} (h : ¬ lineEnd <:+: line) (rest : List UInt8) :
    readLine (line ++ lineEnd ++ rest) = some (line, rest) := by
  rw [readLine, find_lineEnd h, Option.map_some, List.append_assoc, List.take_left, ← List.append_assoc]
  congr 2
  have hlength : line.length + 2 = (line ++ lineEnd).length := by
    rw [List.length_append]
    rfl
  rw [hlength, List.drop_left]

theorem readWord_append {word : List UInt8} (h : 32 ∉ word) (rest : List UInt8) :
    readWord (word ++ 32 :: rest) = some (word, rest) := by
  have hfind : find [32] (word ++ 32 :: rest) = some word.length := by
    rw [List.append_cons, find_append_here h]
  rw [readWord, hfind, Option.map_some, List.take_left, ← List.drop_drop, List.drop_left]
  rfl

theorem readField_render {f : Field} (h : 58 ∉ f.1) : readField (f.1 ++ [58, 32] ++ f.2) = some f := by
  have hfind : find [58] (f.1 ++ 58 :: (32 :: f.2)) = some f.1.length := by
    rw [List.append_cons, find_append_here h]
  have hsplit : f.1 ++ [58, 32] ++ f.2 = f.1 ++ 58 :: (32 :: f.2) := by simp
  rw [hsplit, readField, hfind, Option.map_some, List.take_left, ← List.drop_drop, List.drop_left]
  rfl

theorem readFields_render {fields : List Field} (h : ∀ f ∈ fields, Readable f) (body : List UInt8) {fuel : ℕ}
    (hfuel : fields.length < fuel) : readFields fuel (render fields ++ lineEnd ++ body) = some (fields, body) := by
  induction fields generalizing fuel with
  | nil =>
    obtain ⟨fuel, rfl⟩ := Nat.exists_eq_add_of_lt hfuel
    have hline : readLine ([] ++ lineEnd ++ body) = some ([], body) := readLine_append (by decide) body
    rw [readFields, show render [] = [] from rfl, hline]
    rfl
  | cons f fields ih =>
    rw [List.forall_mem_cons] at h
    obtain ⟨fuel, rfl⟩ : ∃ k, fuel = k + 1 := ⟨fuel - 1, by rw [List.length_cons] at hfuel; omega⟩
    rw [List.length_cons, Nat.add_lt_add_iff_right] at hfuel
    have hsplit : render (f :: fields) ++ lineEnd ++ body =
        (f.1 ++ [58, 32] ++ f.2) ++ lineEnd ++ (render fields ++ lineEnd ++ body) := by
      simp [render, renderField]
    have hne : f.1 ++ [58, 32] ++ f.2 ≠ [] := by simp
    rw [readFields, hsplit, readLine_append h.1.2, Option.bind_some, if_neg hne, readField_render h.1.1,
      Option.bind_some, ih h.2 hfuel]
    rfl

/-- A field whose line has a line end in it is not the first one to be read. -/
theorem readFields_broken {f : Field} (h : lineEnd <:+: f.1 ++ [58, 32] ++ f.2) {rest : List UInt8} {fuel : ℕ}
    {r : List Field × List UInt8} (hr : readFields fuel (f.1 ++ [58, 32] ++ f.2 ++ rest) = some r) :
    r.1.head? ≠ some f := by
  obtain ⟨n, hn⟩ := Option.isSome_iff_exists.1 (find_isSome_iff.2 h)
  have hle : n + 2 ≤ (f.1 ++ [58, 32] ++ f.2).length := find_le hn
  cases fuel with
  | zero => cases hr
  | succ fuel =>
    rw [readFields, readLine, find_append_of_infix h, hn, Option.map_some, Option.bind_some] at hr
    dsimp only at hr
    rw [List.take_append_of_le_length (by omega)] at hr
    split at hr
    · obtain rfl := Option.some.inj hr
      intro hhead
      cases hhead
    · obtain ⟨g, hg, hr⟩ := Option.bind_eq_some_iff.1 hr
      obtain ⟨r', -, rfl⟩ := Option.map_eq_some_iff.1 hr
      intro hhead
      have hgf : g = f := Option.some.inj hhead
      rw [hgf] at hg
      -- the value is cut off where the line end stands
      obtain ⟨k, hk, hfield⟩ := Option.map_eq_some_iff.1 hg
      have hcolon := find_le hk
      have hname := congrArg (fun g => g.1.length) hfield
      have hvalue := congrArg (fun g => g.2.length) hfield
      dsimp only at hname hvalue
      have hvalue : f.2.length ≤ n - (k + 1) := by
        rw [← hvalue]
        split
        · rw [List.length_tail, List.length_drop, List.length_take]
          omega
        · rw [List.length_drop, List.length_take]
          omega
      simp only [List.length_take, List.length_append, List.length_cons, List.length_nil] at hle hcolon hname
      omega

theorem length_le_render (fields : List Field) : fields.length ≤ (render fields).length := by
  induction fields with
  | nil => exact Nat.le_refl _
  | cons f fields ih =>
    have hcons : render (f :: fields) = renderField f ++ render fields := List.flatMap_cons
    rw [hcons, List.length_append, List.length_cons, renderField, List.length_append, List.length_append]
    simp only [List.length_cons, List.length_nil]
    omega

/-- All that follows the first line of a message. -/
theorem readFields_message {fields : List Field} (h : ∀ f ∈ fields, Readable f) (body : List UInt8) :
    readFields ((render fields ++ lineEnd ++ body).length + 1) (render fields ++ lineEnd ++ body) =
      some (fields, body) := by
  apply readFields_render h
  have := length_le_render fields
  rw [List.length_append, List.length_append]
  omega

theorem readMessage_render {first second third : List UInt8} {fields : List Field} (hfirst : 32 ∉ first)
    (hsecond : 32 ∉ second) (hline : ¬ lineEnd <:+: first ++ 32 :: (second ++ 32 :: third))
    (h : ∀ f ∈ fields, Readable f) (body : List UInt8) :
    readMessage ((first ++ 32 :: (second ++ 32 :: third)) ++ lineEnd ++ (render fields ++ lineEnd ++ body)) =
      some ⟨first, second, third, fields, body⟩ := by
  rw [readMessage, readLine_append hline, Option.bind_some]
  dsimp only
  rw [readWord_append hfirst, Option.bind_some]
  dsimp only
  rw [readWord_append hsecond, Option.bind_some, readFields_message h]
  rfl

end Http
