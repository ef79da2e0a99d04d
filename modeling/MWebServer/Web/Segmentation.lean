import MWebServer.Lib.Run
import MWebServer.Web.Response

/-!
# A request in several reads

The parsers can be resumed (`resume_agrees`), and they answer `AGAIN` when the bytes
run out.  `http_request` takes every answer but `OK` for an error, `AGAIN` as well:
it responds, and it gives the bytes back.  The next call begins with a fresh archive.

* `deliver_spec` — every read is answered, and none of its bytes is kept.
* `segmentation_independent_iff` — so a request is answered as a whole only when one
  read delivers it.
-/

namespace MWebServer

namespace Session

variable {env : Env} {s s' : WebSession}

/-- A read of `data`, and the call of `onMessage` behind it. -/
def deliver (env : Env) (s : WebSession) (data : List Byte) : Except Fault WebSession :=
  s.eventReadableCallback env (onMessage env) (some data)

/-- `bytes` have been received and kept, nothing was sent or queued, and the connection is not
being closed. -/
structure Waits (s s' : WebSession) (bytes : List Byte) : Prop where
  kept : s'.conn.ringBufferRead.content = s.conn.ringBufferRead.content ++ bytes
  silent : s'.stream = s.stream
  state : s'.conn.state = s.conn.state
  life : s'.life = s.life

/-- **Segmentation independence** of a request in pieces: before the last of them the server
waits, and behind it the bytes sent and queued are those that one read of the whole request
leads to. -/
def SegmentationIndependent (env : Env) (s : WebSession) (pieces : List (List Byte)) : Prop :=
  (∀ k, k < pieces.length → ∃ s', Run.run (deliver env) s (pieces.take k) = .ok s' ∧
      s.Waits s' (pieces.take k).flatten) ∧
    (Run.run (deliver env) s pieces).map stream = (deliver env s pieces.flatten).map stream

/-- **Every read is answered at once**, and none of its bytes is kept. -/
theorem deliver_spec {data : List Byte} (hw : s.conn.ringBufferWrite.Inv) (ha : s.Alive)
    (hne : data ≠ []) (hok : s.deliver env data = .ok s') :
    s'.conn.ringBufferRead.content = [] ∧ s.stream.length < s'.stream.length := by
  unfold deliver eventReadableCallback at hok
  obtain ⟨⟨nread, t⟩, hread, hok⟩ := Run.bind_eq_ok.1 hok
  obtain ⟨⟨rb, rfl⟩, hcount⟩ := readBuffer_frame ha hread
  have hpos : nread > 0 := by
    rw [hcount]
    exact Int.natCast_pos.2 (List.length_pos_iff.2 hne)
  have ha' : (s.setRead rb).Alive := ha.of_life rfl rfl
  simp only [if_pos hpos, onMessage, ha'.touchConn] at hok
  obtain ⟨hempty, hgrows, -⟩ := httpRequest_spec (s := s.setRead rb) hw ha' hok
  exact ⟨hempty, hgrows⟩

/-- **A request is answered independently of its pieces only when it comes in one.** -/
theorem segmentation_independent_iff {pieces : List (List Byte)}
    (hw : s.conn.ringBufferWrite.Inv) (ha : s.Alive) (hpieces : pieces ≠ [])
    (hne : ∀ piece ∈ pieces, piece ≠ []) :
    SegmentationIndependent env s pieces ↔ pieces.length = 1 := by
  obtain ⟨first, rest, rfl⟩ := List.exists_cons_of_ne_nil hpieces
  constructor
  · rintro ⟨hwaits, -⟩
    by_contra hlen
    have hmore : 1 < (first :: rest).length := by
      have hpos := List.length_pos_iff.2 hpieces
      omega
    -- the first of several pieces is answered
    obtain ⟨t, hrun, hwait⟩ := hwaits 1 hmore
    rw [List.take_succ_cons, List.take_zero, Run.run_cons] at hrun
    obtain ⟨u, hu, hrun⟩ := Run.bind_eq_ok.1 hrun
    obtain rfl := Except.ok.inj hrun
    obtain ⟨-, hgrows⟩ := deliver_spec hw ha (hne first List.mem_cons_self) hu
    rw [hwait.silent] at hgrows
    exact lt_irrefl _ hgrows
  · intro hlen
    obtain rfl : rest = [] := List.length_eq_zero_iff.1 (Nat.succ.inj hlen)
    refine ⟨fun k hk => ?_, ?_⟩
    · obtain rfl : k = 0 := Nat.lt_one_iff.1 hk
      exact ⟨s, rfl, (List.append_nil _).symm, rfl, rfl, rfl⟩
    · rw [Run.run_cons, List.flatten_cons, List.flatten_nil, List.append_nil]
      cases s.deliver env first <;> rfl

/-- A request in one piece. -/
theorem segmentation_independent_get : SegmentationIndependent .oneFile (start 5 0)
    [str "GET / HTTP/1.1\r\n\r\n"] :=
  (segmentation_independent_iff RingBuffer.new_inv ⟨rfl, rfl, rfl, rfl⟩ (by decide)
    (by decide +kernel)).2 rfl

/-- **A request cut in the middle of its version** is answered before its end has come, and
nothing is kept of its beginning. -/
theorem not_segmentation_independent : ¬ SegmentationIndependent .oneFile (start 5 0)
    [str "GET / HT", str "TP/1.1\r\n\r\n"] := by
  rintro ⟨hwaits, -⟩
  obtain ⟨s', hrun, hwait⟩ := hwaits 1 (by decide)
  have hcut : (Run.run (deliver .oneFile) (start 5 0) [str "GET / HT"]).map
      (fun s' => s'.conn.ringBufferRead.content) = .ok [] := by
    decide +kernel
  obtain ⟨t, ht, hempty⟩ := Run.map_eq_ok.1 hcut
  obtain rfl := Run.ok_unique hrun ht
  exact absurd (hwait.kept.symm.trans hempty) (by decide +kernel)

end Session

end MWebServer
