import MWebServer.Web.HeaderSection
import MWebServer.Web.Response

/-!
# Pipelined requests

`http_request` handles one request, and gives back all that was readable when it
began.  What a peer has sent behind the request goes with it.

* `httpRequest_open` — a connection that stays open has been sent one response, and has
  nothing left to read.
* `pipelined_kept_iff` — so the bytes behind a request are kept only when there are none.
-/

namespace MWebServer

namespace Session

variable {env : Env} {s s₁ s' : WebSession}

/-- The response to a request that keeps its connection: its head, and a beginning of the file. -/
def Response (env : Env) (s : WebSession) (response : List Byte) : Prop :=
  ∃ s₁ head tail, s.Persists env s₁ ∧ s.Head env s₁ head ∧ tail <+: s₁.resource ∧
    response = head ++ tail

/-- **The bytes behind a request are kept.**  Of those that follow `request`, some have been
answered by more than its `response`, and the others can still be read. -/
def KeepsBehind (s s' : WebSession) (request response : List Byte) : Prop :=
  ∃ answered left more, s.conn.ringBufferRead.content = request ++ (answered ++ left) ∧
    s'.conn.ringBufferRead.content = left ∧ s'.stream = s.stream ++ (response ++ more) ∧
    (answered ≠ [] → more ≠ [])

/-- **A connection that stays open** has been sent the response to one request, and all that was
readable is gone. -/
theorem httpRequest_open (hw : s.conn.ringBufferWrite.Inv) (ha : s.Alive)
    (hok : s.httpRequest env = .ok s') (hlive : s'.connLive = true)
    (hopen : s'.conn.state = .open) :
    s'.conn.ringBufferRead.content = [] ∧
      ∃ s₁ head tail, s.Persists env s₁ ∧ s.Head env s₁ head ∧ tail <+: s₁.resource ∧
        s'.stream = s.stream ++ (head ++ tail) := by
  obtain ⟨hempty, -, -, hout⟩ := httpRequest_outcome hw ha hok
  refine ⟨hempty, ?_⟩
  cases hout with
  | freed closes touched empty freed =>
    simp only [Freed, life, Prod.mk.injEq] at freed
    exact Bool.noConfusion (freed.1.symm.trans hlive)
  | closing not_closes short life touched waits state ev =>
    exact ConnState.noConfusion (hopen.symm.trans state)
  | kept not_closes persists head_eq stream file life touched state sent =>
    exact ⟨_, _, _, persists, head_eq, file, stream⟩

/-- Where one response has been sent and nothing is left to read, nothing behind the request is
kept. -/
theorem keepsBehind_iff {request response rest : List Byte}
    (hread : s.conn.ringBufferRead.content = request ++ rest)
    (hempty : s'.conn.ringBufferRead.content = []) (hstream : s'.stream = s.stream ++ response) :
    s.KeepsBehind s' request response ↔ rest = [] := by
  constructor
  · rintro ⟨answered, left, more, hsplit, hleft, hmore, hanswered⟩
    obtain rfl : left = [] := hleft.symm.trans hempty
    have hrest : rest = answered := by
      rw [hread, List.append_nil] at hsplit
      exact List.append_cancel_left hsplit
    have hnone : more = [] := by
      rw [hstream] at hmore
      exact List.append_right_eq_self.1 (List.append_cancel_left hmore).symm
    rw [hrest]
    by_contra hne
    exact hanswered hne hnone
  · rintro rfl
    exact ⟨[], [], [], by rw [hread]; rfl, hempty, by rw [hstream, List.append_nil],
      fun h => absurd rfl h⟩

/-- **Pipelined bytes are kept only when there are none.**  `rest` is what has been received behind
a request line, a header section and a body; the connection stays open. -/
theorem pipelined_kept_iff (env : Env) (s s' : WebSession) (l : RequestLine)
    (hs : List HeaderLine) (body rest : List Byte) (hw : s.conn.ringBufferWrite.Inv) (ha : s.Alive)
    (hread : s.conn.ringBufferRead.content = l.bytes ++ (headerSection hs ++ body) ++ rest)
    (hok : s.httpRequest env = .ok s') (hlive : s'.connLive = true)
    (hopen : s'.conn.state = .open) :
    ∃ response, s.Response env response ∧ s'.stream = s.stream ++ response ∧
      (s.KeepsBehind s' (l.bytes ++ (headerSection hs ++ body)) response ↔ rest = []) := by
  obtain ⟨hempty, s₁, head, tail, hpersists, hhead, hfile, hstream⟩ :=
    httpRequest_open hw ha hok hlive hopen
  exact ⟨head ++ tail, ⟨s₁, head, tail, hpersists, hhead, hfile, rfl⟩, hstream,
    keepsBehind_iff hread hempty hstream⟩

/-- The response to a request for an empty file is determined. -/
theorem Response.stream {response : List Byte} (hw : s.conn.ringBufferWrite.Inv) (ha : s.Alive)
    (hresponse : s.Response env response) (hok : s.httpRequest env = .ok s')
    (hlive : s'.connLive = true) (hopen : s'.conn.state = .open)
    (hnofile : (s.handleRequest env).map (fun r => r.2.resource) = .ok []) :
    s'.stream = s.stream ++ response := by
  obtain ⟨s₁, head, tail, ⟨h1, -⟩, hhead, hfile, rfl⟩ := hresponse
  obtain ⟨-, t₁, head', tail', ⟨ht₁, -⟩, hhead', hfile', hstream⟩ :=
    httpRequest_open hw ha hok hlive hopen
  obtain rfl : s₁ = t₁ := congrArg Prod.snd (Run.ok_unique h1 ht₁)
  obtain rfl := hhead.unique hhead'
  obtain ⟨⟨code, u⟩, hu, hnone⟩ := Run.map_eq_ok.1 hnofile
  obtain rfl : s₁ = u := congrArg Prod.snd (Run.ok_unique h1 hu)
  have hnone : s₁.resource = [] := hnone
  rw [hnone, List.prefix_nil] at hfile hfile'
  rw [hstream, hfile, hfile']

/-- A connection that has just received one request, or the same request twice. -/
def asked (rest : List Byte) : WebSession :=
  received (RequestLine.getRoot.bytes ++ (headerSection [] ++ []) ++ rest)

/-- Nothing is behind the request. -/
theorem pipelined_kept_alone : ∃ s' response, (asked []).httpRequest .oneFile = .ok s' ∧
    (asked []).KeepsBehind s' (RequestLine.getRoot.bytes ++ (headerSection [] ++ [])) response := by
  have hreturns : ((asked []).httpRequest .oneFile).map (fun s' => (s'.connLive, s'.conn.state)) =
      .ok (true, .open) := by
    decide +kernel
  obtain ⟨s', hok, hval⟩ := Run.map_eq_ok.1 hreturns
  obtain ⟨hlive, hopen⟩ := Prod.mk.inj hval
  obtain ⟨response, -, -, hkept⟩ := pipelined_kept_iff .oneFile (asked []) s' .getRoot [] [] []
    RingBuffer.new_inv ⟨rfl, rfl, rfl, rfl⟩ (received_content _) hok hlive hopen
  exact ⟨s', response, hok, hkept.2 rfl⟩

/-- **The second of two requests in one read is dropped.** -/
theorem not_pipelined_kept : ¬ ∀ (env : Env) (s s' : WebSession) (l : RequestLine)
    (hs : List HeaderLine) (body rest : List Byte), s.conn.ringBufferWrite.Inv → s.Alive →
      s.conn.ringBufferRead.content = l.bytes ++ (headerSection hs ++ body) ++ rest →
        s.httpRequest env = .ok s' → s'.connLive = true → s'.conn.state = .open →
          ∃ response, s.Response env response ∧
            s.KeepsBehind s' (l.bytes ++ (headerSection hs ++ body)) response := by
  intro h
  let second := RequestLine.getRoot.bytes ++ (headerSection [] ++ [])
  have hnofile : ((asked second).handleRequest .oneFile).map (fun r => r.2.resource) = .ok [] := by
    decide +kernel
  have hreturns : ((asked second).httpRequest .oneFile).map (fun s' =>
      (s'.connLive, s'.conn.state)) = .ok (true, .open) := by
    decide +kernel
  obtain ⟨s', hok, hval⟩ := Run.map_eq_ok.1 hreturns
  obtain ⟨hlive, hopen⟩ := Prod.mk.inj hval
  have ha : (asked second).Alive := ⟨rfl, rfl, rfl, rfl⟩
  obtain ⟨response, hresponse, hkept⟩ := h .oneFile (asked second) s' .getRoot [] [] second
    RingBuffer.new_inv ha (received_content _) hok hlive hopen
  obtain ⟨hempty, -⟩ := httpRequest_open RingBuffer.new_inv ha hok hlive hopen
  have hnone := (keepsBehind_iff (received_content _) hempty
    (hresponse.stream RingBuffer.new_inv ha hok hlive hopen hnofile)).1 hkept
  exact absurd hnone (by decide +kernel)

end Session

end MWebServer
