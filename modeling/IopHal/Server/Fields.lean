import IopHal.Server.Decode

/-!
# `HttpConnection::arg` against the segments of the payload

A payload, well formed or not, is a list of segments between `&`s.  The field under a name is the first segment that
starts with `name=`, decoded where it stands.  `arg` looks for `&name=` instead, and takes what it finds at position 0
for a match without the `&`: there its view starts with the `=` (`arg_splitOn_iff`).
-/

namespace IopHal

open Find Percent

/-- The field under a name, by its segment: `percentDecode` of what follows `name=` there, in the memory of the payload. -/
def segmentArg (name payload : Bytes) : Outcome (Option Bytes) :=
  match firstWith (name ++ [61]) (payload.splitOn 38) with
  | none => .returned none
  | some (text, behind) => percentDecode (text ++ joined 38 behind ++ [NUL]) text.length

/-- The payload begins with `&name=`, and the text behind that reads as a byte string. -/
def LeadingField (name payload : Bytes) : Prop :=
  38 :: (name ++ [61]) <+: payload ∧
    ∃ value, Decodes ((payload.drop (38 :: (name ++ [61])).length).takeWhile (· ≠ 38)) value

theorem takeWhile_text {text : Bytes} (h : 38 ∉ text) (behind : List Bytes) :
    (text ++ joined 38 behind).takeWhile (· ≠ 38) = text := by
  cases behind with
  | nil =>
    have hnil : joined 38 ([] : List Bytes) = [] := rfl
    rw [hnil, List.append_nil, takeWhile_ne_self h]
  | cons seg behind => exact takeWhile_ne_append h _

theorem decodeText_joined {text : Bytes} (h : 38 ∉ text) (behind : List Bytes) :
    decodeText (text ++ joined 38 behind) = percentDecode (text ++ joined 38 behind ++ [NUL]) text.length := by
  cases behind with
  | nil =>
    have hnil : joined 38 ([] : List Bytes) = [] := rfl
    rw [hnil, List.append_nil, decodeText_eq h]
  | cons seg behind =>
    rw [joined_cons, decodeText_cut h, ← List.cons_append, List.append_assoc]

/-- What stands behind a text in the memory of the payload: a delimiter first. -/
theorem exists_delimiter (behind : List Bytes) :
    ∃ d rest, (d = 38 ∨ d = NUL) ∧ joined 38 behind ++ [NUL] = d :: rest := by
  cases behind with
  | nil => exact ⟨NUL, [], .inr rfl, rfl⟩
  | cons seg behind => exact ⟨38, _, .inl rfl, rfl⟩

/-- An `=` in front of a text stays in front of what is decoded, which is then not what the text decodes to. -/
theorem decodeText_equals {text : Bytes} (hand : 38 ∉ text) (hnul : NUL ∉ text) (behind : List Bytes) :
    decodeText (61 :: text ++ joined 38 behind) = decodeText (text ++ joined 38 behind) ↔
      ¬ ∃ value, Decodes text value := by
  have hand' : 38 ∉ 61 :: text := by
    rw [List.mem_cons, not_or]
    exact ⟨by decide, hand⟩
  have hnul' : NUL ∉ 61 :: text := by
    rw [List.mem_cons, not_or]
    exact ⟨by decide, hnul⟩
  obtain ⟨d, rest, hd, hbehind⟩ := exists_delimiter behind
  rw [decodeText_joined hand', decodeText_joined hand, List.append_assoc, List.append_assoc, hbehind]
  rcases decodes_or_broken text with ⟨s, hs⟩ | ⟨w, s, u, rfl, hs, hu⟩
  · rw [percentDecode_of_decodes hs hnul, percentDecode_of_decodes (.plain (by decide) hs) hnul']
    apply iff_of_false
    · intro h
      have hlength := congrArg List.length (Option.some.inj (Outcome.returned.inj h))
      rw [List.length_cons] at hlength
      omega
    · exact fun h => h ⟨s, hs⟩
  · have hw : NUL ∉ w := fun hmem => hnul (List.mem_append_left _ hmem)
    have hw' : NUL ∉ 61 :: w := fun hmem => hnul' (List.mem_append_left _ hmem)
    apply iff_of_true
    · rw [percentDecode_of_broken hs hu hw (tbl_delimiter hd)]
      exact percentDecode_of_broken (.plain (by decide) hs) hu hw' (tbl_delimiter hd) rest
    · intro h
      obtain ⟨value, hvalue⟩ := h
      exact not_decodes_of_broken hs hu value hvalue

section Segment

variable {conn : HttpConnection} {name : StaticString} {before text : Bytes} {behind : List Bytes}

/-- A payload that begins with `name=` does not begin with an `&`. -/
theorem not_leadingField_of_first (hname : 38 ∉ name.text) (h : name.text ++ [61] <+: conn.currentPayload) :
    ¬ LeadingField name.text conn.currentPayload := by
  intro hleading
  obtain ⟨rest, hrest⟩ := h
  have hhead := hleading.1
  rw [← hrest, List.append_assoc] at hhead
  cases hname' : name.text with
  | nil =>
    rw [hname'] at hhead
    exact absurd (List.cons_prefix_cons.1 hhead).1 (by decide)
  | cons c rest =>
    rw [hname', List.cons_append] at hhead
    rw [hname', List.mem_cons, not_or] at hname
    exact hname.1 (List.cons_prefix_cons.1 hhead).1

/-- Behind an `&`, the field is decoded where it stands, unless that `&` begins the payload. -/
theorem arg_segment_iff (hnot : ¬ name.text ++ [61] <+: conn.currentPayload) (htext : 38 ∉ text)
    (hpayload : NUL ∉ conn.currentPayload)
    (hwhole : conn.currentPayload = before ++ 38 :: (name.text ++ [61]) ++ (text ++ joined 38 behind))
    (hfind : find (38 :: (name.text ++ [61])) conn.currentPayload = some before.length) :
    conn.arg name = percentDecode (text ++ joined 38 behind ++ [NUL]) text.length ↔
      ¬ LeadingField name.text conn.currentPayload := by
  rw [arg_of_further hnot hwhole hfind, ← decodeText_joined htext]
  by_cases hnil : before = []
  · have hstart : conn.currentPayload = 38 :: (name.text ++ [61]) ++ (text ++ joined 38 behind) := by
      rw [hwhole, hnil, List.nil_append]
    have hdrop : conn.currentPayload.drop (38 :: (name.text ++ [61])).length = text ++ joined 38 behind := by
      rw [hstart, List.drop_left]
    have hnul : NUL ∉ text := by
      intro hmem
      apply hpayload
      rw [hstart]
      exact List.mem_append_right _ (List.mem_append_left _ hmem)
    rw [if_pos hnil, ← List.cons_append, decodeText_equals htext hnul behind]
    unfold LeadingField
    rw [hdrop, takeWhile_text htext, not_and]
    exact ⟨fun h _ => h, fun h => h ⟨_, hstart.symm⟩⟩
  · rw [if_neg hnil]
    refine iff_of_true rfl fun h => ?_
    have hzero := find_of_isPrefix h.1
    rw [hfind] at hzero
    exact hnil (List.eq_nil_of_length_eq_zero (Option.some.inj hzero))

end Segment

/-- `arg` returns the field by its segment exactly if the field does not stand behind an `&` that begins the payload, or
cannot be decoded there. -/
theorem arg_splitOn_iff (conn : HttpConnection) (name : StaticString) (hname : 38 ∉ name.text)
    (hpayload : NUL ∉ conn.currentPayload) :
    conn.arg name = segmentArg name.text conn.currentPayload ↔ ¬ LeadingField name.text conn.currentPayload := by
  have hpat : 38 ∉ name.text ++ [61] := by
    rw [List.mem_append, List.mem_singleton, not_or]
    exact ⟨hname, by decide⟩
  obtain ⟨seg, segs, hsplit, hfree, hjoined⟩ := exists_splitOn 38 conn.currentPayload
  rw [List.forall_mem_cons] at hfree
  have hstarts : name.text ++ [61] <+: conn.currentPayload ↔ name.text ++ [61] <+: seg := by
    rw [hjoined]
    exact prefix_segment_iff hpat seg
  have hskip : find (38 :: (name.text ++ [61])) conn.currentPayload =
      (find (38 :: (name.text ++ [61])) (joined 38 segs)).map (· + seg.length) := by
    rw [hjoined]
    exact find_append_skip hfree.1 _ _
  unfold segmentArg
  rw [hsplit, firstWith]
  by_cases hseg : name.text ++ [61] <+: seg
  · -- the first segment is the field
    refine iff_of_true ?_ (not_leadingField_of_first hname (hstarts.2 hseg))
    obtain ⟨text, rfl⟩ := hseg
    have htext : 38 ∉ text := fun hmem => hfree.1 (List.mem_append_right _ hmem)
    have hwhole : conn.currentPayload = name.text ++ [61] ++ (text ++ joined 38 segs) := by
      rw [hjoined, List.append_assoc]
    rw [if_pos (List.prefix_append _ _), List.drop_left, arg_of_first hwhole, decodeText_joined htext]
  · have hnot : ¬ name.text ++ [61] <+: conn.currentPayload := fun h => hseg (hstarts.1 h)
    rw [if_neg hseg]
    cases hfirst : firstWith (name.text ++ [61]) segs with
    | none =>
      have hfind : find (38 :: (name.text ++ [61])) conn.currentPayload = none := by
        rw [hskip, find_joined_none hpat hfree.2 hfirst]
        rfl
      rw [arg_of_none hnot hfind]
      refine iff_of_true rfl fun h => ?_
      exact find_eq_none_iff.1 hfind h.1.isInfix
    | some found =>
      obtain ⟨text, behind⟩ := found
      obtain ⟨htext, before, hbefore, hfound⟩ := find_joined_some hpat hfree.2 hfirst
      have hwhole : conn.currentPayload =
          (seg ++ before) ++ 38 :: (name.text ++ [61]) ++ (text ++ joined 38 behind) := by
        rw [hjoined, hbefore]
        simp
      have hfind : find (38 :: (name.text ++ [61])) conn.currentPayload = some (seg ++ before).length := by
        rw [hskip, hfound, Option.map_some, List.length_append, Nat.add_comm]
      exact arg_segment_iff hnot htext hpayload hwhole hfind

/-- The field of a form, found where the first segment is something else. -/
theorem arg_of_later_segment :
    ({ HttpConnection.accepted 4 with currentPayload := ascii "b=1&&a=x" }).arg ⟨ascii "a", by decide⟩ =
      segmentArg (ascii "a") (ascii "b=1&&a=x") := by
  apply (arg_splitOn_iff _ ⟨ascii "a", by decide⟩ (by decide) (by decide)).2
  intro h
  revert h
  unfold LeadingField
  exact fun h => absurd h.1 (by decide)

/-- A field behind an `&` that begins the payload. -/
theorem arg_behind_ampersand :
    ({ HttpConnection.accepted 4 with currentPayload := ascii "&a=x" }).arg ⟨ascii "a", by decide⟩ ≠
      segmentArg (ascii "a") (ascii "&a=x") := by
  decide

end IopHal
