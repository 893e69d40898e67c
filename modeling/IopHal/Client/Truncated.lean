import IopHal.Client.Segmentation
import IopHal.Network
import IopHal.Update

/-!
# Responses that break off

The client does not read the `Content-Length` of a response: the end of the stream ends the body, wherever it comes.
`truncated_response` says what becomes of a response of which only a part arrives, from the call that receives it to the
executable that an update puts in place.
-/

namespace IopHal

open Feed Find Framing

/-- The part of the body that has arrived. -/
def arrivedBody (m : HttpResponse) (cs : List (Chunk bufferSize)) : Bytes := (bytes cs).drop m.head.length

/-- The reads reach behind the status line, and none of them breaks a line of the head. -/
def HeadKept (m : HttpResponse) (cs : List (Chunk bufferSize)) : Prop := cs ≠ [] ∧ Terminated cs ∧ LineAligned m cs

section Part

variable {keys : List Bytes} (hkeys : ∀ key ∈ keys, CR ∉ key) (m : HttpResponse) {cs : List (Chunk bufferSize)}
  {missing : Bytes} (h : bytes cs ++ missing = m.render)
include hkeys h

/-- A call that returns has either kept the head or failed. -/
theorem outcome_part_cases :
    HeadKept m cs ∧ (∃ headers, Parser.outcome keys .statusLine (reads cs) =
      .returned (.ofHeaders headers (arrivedBody m cs) m.status)) ∨
    ¬ HeadKept m cs ∧ ∀ r, Parser.outcome keys .statusLine (reads cs) = .returned r → r.status ≠ some .ok ∧
      r.code ≠ 200 := by
  unfold HeadKept
  by_cases hcs : cs = []
  · refine .inr ⟨fun hkept => hkept.1 hcs, ?_⟩
    rintro r hr
    rw [hcs] at hr
    obtain rfl := Outcome.returned.inj hr
    decide
  · obtain ⟨headers, -, hrun⟩ := outcome_of_part keys m h hcs (.inl hkeys)
    rw [hrun, lineAligned_iff]
    by_cases hterm : Terminated cs
    · rw [if_pos hterm]
      cases hbreak : firstBreak crlf m.headLines 0 (cs.map (·.1)) with
      | none => exact .inl ⟨⟨hcs, hterm, rfl⟩, headers, rfl⟩
      | some c =>
        refine .inr ⟨fun hkept => Option.some_ne_none c hkept.2.2, ?_⟩
        intro r hr
        unfold endOf at hr
        dsimp only at hr
        split at hr
        · obtain rfl := Outcome.returned.inj hr
          decide
        · exact absurd hr (headerLinePanic_ne_returned _ r)
    · rw [if_neg hterm]
      refine .inr ⟨fun hkept => hterm hkept.2.1, ?_⟩
      intro r hr
      contradiction

end Part

/-- An update behind a response puts nothing but its payload in place of the executable. -/
theorem update_of_response {firmwareMD5 : Bytes} {p : Process} {fs : FileSystem} {old : File}
    (hne : p.tmpFile ≠ p.filename) (hexe : fs p.filename = some old) {r t : Response} {body : Bytes}
    (hr : r.status = some .ok ∧ r.promise = body ∨ r.status ≠ some .ok ∧ r.code ≠ 200)
    (ht : (processResponse firmwareMD5 r).response = .returned t) (answers : List Answer) :
    Update.Complete p body old (Update.run p t fs answers).2 ∨ (Update.run p t fs answers).2 p.filename = none := by
  unfold Update.run
  rcases hr with ⟨hok, rfl⟩ | ⟨hnot, hcode⟩
  · by_cases hbody : r.promise = []
    · rw [processResponse_empty firmwareMD5 hok hbody] at ht
      contradiction
    · rw [processResponse_ok firmwareMD5 hok hbody, Outcome.returned.injEq] at ht
      subst ht
      have hstatus : (Response.ofPayload r.promise .ok).status = some .ok := rfl
      have hpromise : (Response.ofPayload r.promise .ok).promise = r.promise := rfl
      rw [if_pos hstatus, hpromise, if_neg hbody]
      exact Update.ended_filename hne hexe answers
  · rw [if_neg (processResponse_not_ok firmwareMD5 hnot hcode ht)]
    exact .inl (.inl hexe)

/-- A response comes through `processResponse` where its payload has a first element, or it is no success. -/
theorem processResponse_returns {firmwareMD5 : Bytes} {r : Response} {body : Bytes}
    (hr : r.status = some .ok ∧ r.promise = body ∨ r.status ≠ some .ok ∧ r.code ≠ 200) (hbody : body ≠ []) :
    ∃ t, (processResponse firmwareMD5 r).response = .returned t := by
  rcases hr with ⟨hok, rfl⟩ | ⟨hnot, -⟩
  · exact ⟨_, processResponse_ok firmwareMD5 hok hbody⟩
  · exact ⟨_, processResponse_of_not_ok firmwareMD5 hnot⟩

/-- Of a response of which only a part arrives, whatever length it declares, the call reports success exactly if the code
is 200 and the reads keep the head; its payload is the part of the body that has arrived.  `processResponse` returns if
that part is not empty, and whatever it returns, an update puts nothing else in place of the executable. -/
theorem truncated_response (ctx : SessionContext) (hkeys : ∀ key ∈ ctx.headersToCollect, CR ∉ key)
    (method data : Bytes) (m : HttpResponse) {cs : List (Chunk bufferSize)} {missing : Bytes}
    (h : bytes cs ++ missing = m.render) (firmwareMD5 : Bytes) {p : Process} {fs : FileSystem} {old : File}
    (hne : p.tmpFile ≠ p.filename) (hexe : fs p.filename = some old) :
    ((∃ r, (sendRequest ctx .gotIp method data (reads cs)).outcome = .returned r ∧ r.status = some .ok) ↔
        HeadKept m cs ∧ digitsValue m.code = 200) ∧
      ∀ r, (sendRequest ctx .gotIp method data (reads cs)).outcome = .returned r →
        (r.status = some .ok → r.promise = arrivedBody m cs) ∧
        (arrivedBody m cs ≠ [] → ∃ t, (processResponse firmwareMD5 r).response = .returned t) ∧
        ∀ t, (processResponse firmwareMD5 r).response = .returned t → ∀ answers,
          Update.Complete p (arrivedBody m cs) old (Update.run p t fs answers).2 ∨
            (Update.run p t fs answers).2 p.filename = none := by
  have hstatus : ((m.status : Status) : Int) = digitsValue m.code := rfl
  rw [sendRequest_outcome]
  rcases outcome_part_cases hkeys m h with ⟨hkept, headers, hrun⟩ | ⟨hlost, hfailed⟩
  · have hok : (Response.ofHeaders headers (arrivedBody m cs) m.status).status = some .ok ↔ digitsValue m.code = 200 := by
      rw [Response.ofHeaders, networkStatus_eq_ok_iff, hstatus]
      omega
    constructor
    · constructor
      · rintro ⟨r, hr, hrok⟩
        obtain rfl := Outcome.returned.inj (hrun.symm.trans hr)
        exact ⟨hkept, hok.1 hrok⟩
      · rintro ⟨-, hcode⟩
        exact ⟨_, hrun, hok.2 hcode⟩
    · intro r hr
      obtain rfl := Outcome.returned.inj (hrun.symm.trans hr)
      have hcases : (Response.ofHeaders headers (arrivedBody m cs) m.status).status = some .ok ∧
            arrivedBody m cs = arrivedBody m cs ∨
          (Response.ofHeaders headers (arrivedBody m cs) m.status).status ≠ some .ok ∧
            ((m.status : Status) : Int) ≠ 200 := by
        by_cases hcode : digitsValue m.code = 200
        · exact .inl ⟨hok.2 hcode, rfl⟩
        · refine .inr ⟨mt hok.1 hcode, ?_⟩
          omega
      exact ⟨fun _ => rfl, processResponse_returns hcases, fun t ht => update_of_response hne hexe hcases ht⟩
  · constructor
    · apply iff_of_false
      · rintro ⟨r, hr, hok⟩
        exact (hfailed r hr).1 hok
      · exact fun hkept => hlost hkept.1
    · intro r hr
      have hcases : r.status = some .ok ∧ r.promise = arrivedBody m cs ∨ r.status ≠ some .ok ∧ r.code ≠ 200 :=
        .inr (hfailed r hr)
      exact ⟨fun hok => absurd hok (hfailed r hr).1, processResponse_returns hcases,
        fun t ht => update_of_response hne hexe hcases ht⟩

/-! ### A download that breaks off -/

/-- A firmware image of five bytes, as the server announces it. -/
def imageResponse : HttpResponse :=
  { updateResponse with
    headerLines := [ascii "Content-Length: 5"]
    body := ascii "image"
    headers_text := by decide }

/-- The head and two bytes of the image -/
def brokenDownload : List (Chunk bufferSize) :=
  [⟨ascii "HTTP/1.1 200 OK\r\nContent-Length: 5\r\n\r\n", by decide⟩, ⟨ascii "im", by decide⟩]

theorem truncated_response_download :
    ∃ r t, (sendRequest updateSession .gotIp (ascii "GET") [] (reads brokenDownload)).outcome = .returned r ∧
      r.promise = ascii "im" ∧ (processResponse [] r).response = .returned t ∧
      (Update.Complete Update.device (ascii "im") Update.oldBinary
          (Update.run Update.device t Update.files [.ok, .failed]).2 ∨
        (Update.run Update.device t Update.files [.ok, .failed]).2 Update.device.filename = none) := by
  have h : bytes brokenDownload ++ ascii "age" = imageResponse.render := by decide
  have hne : Update.device.tmpFile ≠ Update.device.filename := by decide
  have hexe : Update.files Update.device.filename = some Update.oldBinary := by decide
  obtain ⟨hiff, hall⟩ :=
    truncated_response updateSession (by decide) (ascii "GET") [] imageResponse h [] hne hexe
  obtain ⟨r, hr, hok⟩ := hiff.2 ⟨⟨by decide, by decide, by decide⟩, by decide⟩
  obtain ⟨hpayload, hreturns, hinstalled⟩ := hall r hr
  obtain ⟨t, ht⟩ := hreturns (by decide)
  exact ⟨r, t, hr, hpayload hok, ht, hinstalled t ht [.ok, .failed]⟩

/-- The stream ends three bytes early: the call reports success, and the two bytes are installed. -/
theorem truncated_response_installed :
    ascii "Content-Length: 5" ∈ imageResponse.headerLines ∧ (arrivedBody imageResponse brokenDownload).length = 2 ∧
      ∃ r t, (sendRequest updateSession .gotIp (ascii "GET") [] (reads brokenDownload)).outcome = .returned r ∧
        r.status = some .ok ∧ (processResponse [] r).response = .returned t ∧
        (Update.run Update.device t Update.files (List.replicate 9 .ok)).2 Update.device.filename =
          some ⟨ascii "im", binaryPerms⟩ := by
  refine ⟨by decide, by decide, ?_⟩
  have h : bytes brokenDownload ++ ascii "age" = imageResponse.render := by decide
  have hkeys : ∀ key ∈ updateSession.headersToCollect, CR ∉ key := by decide
  have hkept : HeadKept imageResponse brokenDownload := ⟨by decide, by decide, by decide⟩
  have hbody : arrivedBody imageResponse brokenDownload ≠ [] := by decide
  rcases outcome_part_cases hkeys imageResponse h with ⟨-, headers, hrun⟩ | ⟨hlost, -⟩
  · have hcode : networkStatus imageResponse.status = some .ok := by decide
    have hok : (Response.ofHeaders headers (arrivedBody imageResponse brokenDownload) imageResponse.status).status =
        some .ok := hcode
    refine ⟨_, .ofPayload (arrivedBody imageResponse brokenDownload) .ok,
      (sendRequest_outcome updateSession (ascii "GET") [] (reads brokenDownload)).trans hrun, hok,
      processResponse_ok [] hok hbody, ?_⟩
    decide
  · exact absurd hkept hlost

end IopHal
