import MWebServer.Lib.Framing
import MWebServer.Web.Conversation

/-!
# The client's side of a conversation

What is on the wire is one stream.  A client that takes a line, then headers with the
server's own `parse_header_line`, and then as many bytes as `Content-Length` says, finds in
it the replies of the conversation, one behind another, and nothing else.

* `readReply` — the client.
* `Readable.readsBack` — one reply, in front of anything.
* `replies_readBack` — a conversation.
-/

namespace MWebServer

/-! ## The client -/

/-- The number that `Content-Length` gives. -/
def announced (headers : List (List Byte × List Byte)) : Option Nat :=
  (headers.find? fun h => h.1 = str "Content-Length").map fun h => (decimal h.2).toNat

/-- Where the headers begin that stand at `p`. -/
def headArchive (p : Nat) : ParseArchive := { freshArchive p with state := .hdBegin }

/-- One response is taken from the beginning of a stream. -/
def readReply (stream : List Byte) : Option (Reply × List Byte) :=
  let status := stream.takeWhile fun c => !isNewline c
  let msg := status.length + 2
  match splitHeaders (stream.length + 1) stream msg (stream.length - msg)
      (headArchive msg) with
  | .error _ => none
  | .ok (headers, code, left) =>
      let body := stream.drop (stream.length - left)
      match announced headers with
      | none => none
      | some n =>
          if code = CRLF_LINE ∧ n ≤ body.length then
            some (⟨status, headers, body.take n⟩, body.drop n)
          else none

/-- All responses of a stream. -/
def readReplies (stream : List Byte) : Option (List Reply) :=
  Framing.readAll readReply stream.length stream

/-! ## What can be read -/

/-- A reply whose head is made of lines and announces the length of what it holds. -/
structure Reply.Readable (r : Reply) : Prop where
  one_line : ∀ c ∈ r.status, isNewline c = false
  headers : ∀ h ∈ r.headers, HeaderText h
  length : announced r.headers = some r.content.length

theorem takeWhile_line {line rest : List Byte} (hline : ∀ c ∈ line, isNewline c = false) :
    (line ++ (crlf ++ rest)).takeWhile (fun c => !isNewline c) = line := by
  have hall : ∀ c ∈ line, (!isNewline c) = true := fun c hc => by rw [hline c hc]; rfl
  rw [List.takeWhile_append_of_pos hall]
  show line ++ [] = line
  exact List.append_nil line

/-- **A reply is read back**, whatever stands behind it. -/
theorem Reply.Readable.readsBack {r : Reply} (h : r.Readable) :
    Framing.ReadsBack readReply Reply.bytes r where
  ne_nil hnil := by
    have hzero := congrArg List.length hnil
    have hcrlf : crlf.length = 2 := rfl
    simp only [Reply.bytes, Reply.head, List.length_append, List.length_nil, hcrlf] at hzero
    omega
  eq rest := by
    -- the head stands between the status line and the content
    obtain ⟨text, htext⟩ : ∃ text, text = r.headers.flatMap headerBytes ++
      (crlf ++ (r.content ++ rest)) := ⟨_, rfl⟩
    have hstream : r.bytes ++ rest = r.status ++ (crlf ++ text) := by
      rw [htext, Reply.bytes, Reply.head]
      simp only [List.append_assoc]
    have hcrlf : crlf.length = 2 := rfl
    have hlen : (r.status ++ (crlf ++ text)).length = r.status.length + 2 + text.length := by
      simp only [List.length_append, hcrlf]
      omega
    have hbehind : text.length = (r.headers.flatMap headerBytes).length +
        (2 + (r.content ++ rest).length) := by
      rw [htext]
      simp only [List.length_append, hcrlf]
    have hfuel : r.headers.length < (r.status ++ (crlf ++ text)).length + 1 := by
      have := Session.length_lt_text r.headers
      simp only [List.length_append, hcrlf] at this
      omega
    have hpre : (r.status ++ crlf).length = r.status.length + 2 := List.length_append
    have hheaders := splitHeaders_behind h.headers (r.status ++ crlf) (r.content ++ rest) []
      (show (headArchive (r.status.length + 2)).nextParsePos = some _ by rw [hpre]; rfl) rfl
      (fun _ => ⟨trivial, trivial⟩) hfuel
    rw [← htext, List.append_nil, List.append_assoc, hpre] at hheaders
    have hbody : (r.status ++ (crlf ++ text)).drop
        ((r.status ++ (crlf ++ text)).length - (r.content ++ rest).length) = r.content ++ rest := by
      have hsplit : r.status ++ (crlf ++ text) =
          (r.status ++ (crlf ++ (r.headers.flatMap headerBytes ++ crlf))) ++ (r.content ++ rest) := by
        rw [htext]
        simp only [List.append_assoc]
      rw [hsplit, List.length_append, Nat.add_sub_cancel_right, List.drop_left]
    rw [hstream]
    unfold readReply
    simp only
    rw [takeWhile_line h.one_line, hlen, Nat.add_sub_cancel_left, ← hlen, hheaders]
    simp only [h.length, hbody]
    rw [if_pos ⟨trivial, by rw [List.length_append]; omega⟩, List.take_left, List.drop_left]

/-! ## The replies of a conversation -/

/-- The first `Content-Length` is that of the reply. -/
theorem announced_reply (time : Int) (a : Ask) :
    announced (a.reply time).headers = some (a.reply time).content.length := by
  have hfind : (a.reply time).headers.find? (fun h => h.1 = str "Content-Length") =
      some (str "Content-Length", str (toString (a.content.length : Int))) := by
    have hnames : str "Date" ≠ str "Content-Length" ∧ str "Server" ≠ str "Content-Length" ∧
        str "Content-Type" ≠ str "Content-Length" := by decide +kernel
    simp [Ask.reply, hnames]
  unfold announced
  rw [hfind, Option.map_some, decimal_str]
  rfl

/-- **The reply to a request that is served can be read.** -/
theorem Ask.Served.readable {time : Int} {a : Ask} (ha : a.Served time)
    (hdate : FormattedDate (a.env.date a.env.now)) : (a.reply time).Readable where
  one_line c hc := by
    have hlines : (∀ c ∈ str "HTTP/1.1 " ++ str "200 OK", isNewline c = false) ∧
        ∀ c ∈ str "HTTP/1.0 " ++ str "200 OK", isNewline c = false := by decide +kernel
    unfold Ask.reply at hc
    simp only at hc
    split_ifs at hc
    · exact hlines.1 c hc
    · exact hlines.2 c hc
  headers := by
    -- a connection that has received the request
    let s := (Session.start 0 time).setRead (Session.held a.bytes [])
    have hs : s.Receives time a.bytes [] :=
      ⟨⟨rfl, rfl, rfl, rfl⟩, rfl, rfl, rfl, RingBuffer.new_inv, ⟨rfl, rfl⟩⟩
    obtain ⟨s₁, left, hok, hkeep, -⟩ := Session.handleRequest_served_ask hs ha
    let s₂ := s₁.setRead (Session.held [] (zeros a.bytes.length ++ left))
    have hsize : 0 ≤ s₂.handler.resourceSize := by
      show 0 ≤ s₁.handler.resourceSize
      rw [Session.resourceSize_served hs ha hok]
      exact Int.natCast_nonneg _
    rw [← Session.writtenHeaders_reply hs ha hok hkeep left]
    exact headerText_written hsize hdate
  length := announced_reply time a

/-- Only requests are answered. -/
theorem Ask.mem_of_answered {asks : List Ask} {a : Ask} (h : a ∈ Ask.answered asks) : a ∈ asks := by
  induction asks with
  | nil => cases h
  | cons b asks ih =>
    rw [Ask.answered] at h
    rcases List.mem_cons.1 h with rfl | h
    · exact List.mem_cons_self
    · split_ifs at h
      · exact List.mem_cons_of_mem b (ih h)
      · cases h

/-- **A client reads the replies of a conversation**, each with the file that was asked for, and
nothing else. -/
theorem replies_readBack (connfd time : Int) (asks : List Ask) (hasks : ∀ a ∈ asks, a.Served time)
    (hdate : ∀ a ∈ asks, FormattedDate (a.env.date a.env.now)) :
    ∃ s, Run.run Session.turn (Session.start connfd time) (asks.map Ask.turn) = .ok s ∧
      readReplies s.kernel.sent = some ((Ask.answered asks).map fun a => a.reply time) := by
  obtain ⟨s, hrun, -, hsent, -⟩ :=
    Session.run_answers asks hasks (Session.listens_start connfd time)
  have hstream : s.kernel.sent = ((Ask.answered asks).map fun a => a.reply time).flatMap Reply.bytes := by
    rw [hsent, List.flatMap_map]
    rfl
  have hreads : ∀ r ∈ (Ask.answered asks).map fun a => a.reply time,
      Framing.ReadsBack readReply Reply.bytes r := by
    intro r hr
    obtain ⟨a, ha, rfl⟩ := List.mem_map.1 hr
    have hmem := Ask.mem_of_answered ha
    exact ((hasks a hmem).readable (hdate a hmem)).readsBack
  refine ⟨s, hrun, ?_⟩
  unfold readReplies
  rw [hstream]
  exact Framing.readAll_flatMap hreads (Framing.length_le_flatMap hreads)

/-- **Two of three files are received**, of one byte each. -/
theorem replies_readBack_threeBytes : ∃ s,
    Run.run Session.turn (Session.start 5 0) (Ask.threeBytes.map Ask.turn) = .ok s ∧
      (readReplies s.kernel.sent).map (List.map Reply.content) = some [[chr 'x'], [chr 'x']] := by
  have hdate : FormattedDate (str "Thu, 01 Jan 1970 00:00:00") :=
    ⟨by decide +kernel, "Thu", by decide, str ", 01 Jan 1970 00:00:00", by decide +kernel⟩
  obtain ⟨s, hrun, hreads⟩ := replies_readBack 5 0 Ask.threeBytes Ask.served_threeBytes (by
    intro a ha
    simp only [Ask.threeBytes, List.mem_cons, List.not_mem_nil, or_false] at ha
    rcases ha with rfl | rfl | rfl <;> exact hdate)
  refine ⟨s, hrun, ?_⟩
  rw [hreads, Ask.answered_threeBytes]
  rfl

end MWebServer
