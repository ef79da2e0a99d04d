import MWebServer.Web.Unfinished
import MWebServer.Web.ErrorPage

/-!
# What a head says about the connection

The end of `http_request` closes the connection when `keep_alive` is off.  The
`Keep-Alive` line is written from the same flag, the `Connection` line also from the age
of the connection, and an error head from neither.

* `Responds` — how `http_request` comes to its end.
* `agrees_iff` — head and end agree unless an old connection is asked to stay.
-/

namespace MWebServer

variable {env : Env} {s s' t u : Session Request} {lines : List (List Byte)}

/-! ## The lines about the connection -/

/-- The line with which a head announces that the connection is closed. -/
def closeLine : List Byte := str "Connection: close" ++ crlf

/-- A line among others that are different from `x`. -/
theorem mem_of_other {before after : List (List Byte)} {x line : List Byte}
    (hother : ∀ l ∈ before ++ after, x ≠ l) : x ∈ before ++ line :: after ↔ x = line := by
  constructor
  · intro hx
    rw [List.mem_append, List.mem_cons] at hx
    rcases hx with hl | rfl | hl
    · exact absurd rfl (hother x (List.mem_append_left _ hl))
    · rfl
    · exact absurd rfl (hother x (List.mem_append_right _ hl))
  · rintro rfl
    simp

/-- A line with another name is no `Content-Length`. -/
theorem ne_contentLengthLine {name : List Byte} (hlen : 4 ≤ name.length)
    (hname : name.take 4 ≠ (str "Content-Length: ").take 4) (x : List Byte) (r : Request) :
    name ++ x ≠ contentLengthLine r := by
  unfold contentLengthLine
  split_ifs
  · exact append_ne_append 4 hlen (by decide) hname _ _
  · rintro h
    obtain ⟨rfl, -⟩ := List.append_eq_nil_iff.1 h
    exact absurd hlen (by decide)

namespace Session

/-- The connection is older than `connect_time_limit`. -/
def TooOld (env : Env) (s : WebSession) : Prop :=
  env.now - s.conn.timeOnConnect > env.connectTimeLimit

instance (env : Env) (s : WebSession) : Decidable (s.TooOld env) := inferInstanceAs (Decidable (_ > _))

/-- **The head of a file** says `close` if the connection is old or `keep_alive` is off. -/
theorem closeLine_mem_headLines (h : t.headLines env = .ok lines) :
    closeLine ∈ lines ↔ t.TooOld env ∨ t.handler.par.keepAlive = false := by
  obtain ⟨line, hline, h⟩ := Run.bind_eq_ok.1 h
  obtain rfl := Except.ok.inj h
  have hlength : closeLine ≠ contentLengthLine t.handler :=
    ne_contentLengthLine (by decide) (by decide) _ _
  have htimeout : closeLine ≠ timeoutLine env t.handler := by
    unfold timeoutLine
    split_ifs
    · exact append_ne_append 1 (by decide) (by decide) (by decide) _ _
    · exact List.append_ne_nil_of_left_ne_nil (by decide) _
  have hother : ∀ l ∈ [line, dateLine env, serverLine, contentTypeLine t.readMem t.handler,
      contentLengthLine t.handler] ++ [timeoutLine env t.handler, crlf], closeLine ≠ l := by
    simp only [List.cons_append, List.nil_append, List.forall_mem_cons, List.not_mem_nil,
      IsEmpty.forall_iff, implies_true, and_true]
    refine ⟨?_, append_ne_append 1 (by decide) (by decide) (by decide) _ _,
      append_ne_append 1 (by decide) (by decide) (by decide) _ _,
      append_ne_append 4 (by decide) (by decide) (by decide) _ _, hlength, htimeout, by decide⟩
    rintro rfl
    exact absurd (headLine_statusLine hline).2 (by decide)
  refine (@mem_of_other _ _ _ (connectionLine env t.handler t.conn) hother).trans ?_
  unfold connectionLine TooOld
  by_cases hold : env.now - t.conn.timeOnConnect > env.connectTimeLimit
  · rw [if_pos hold]
    exact iff_of_true rfl (Or.inl hold)
  · rw [if_neg hold]
    cases hkeep : t.handler.par.keepAlive with
    | true => exact iff_of_false (by decide) fun h => h.elim hold (by decide)
    | false => exact iff_of_true rfl (Or.inr rfl)

/-- **It has a `Keep-Alive` line** only if `keep_alive` is on. -/
theorem keepAlive_of_mem_headLines {val : List Byte} (h : t.headLines env = .ok lines)
    (hmem : str "Keep-Alive: " ++ val ∈ lines) : t.handler.par.keepAlive = true := by
  obtain ⟨line, hline, h⟩ := Run.bind_eq_ok.1 h
  obtain rfl := Except.ok.inj h
  have hlength : str "Keep-Alive: " ++ val ≠ contentLengthLine t.handler :=
    ne_contentLengthLine (by decide) (by decide) _ _
  have hconnection : str "Keep-Alive: " ++ val ≠ connectionLine env t.handler t.conn := by
    unfold connectionLine
    split_ifs <;> exact append_ne_append 1 (by decide) (by decide) (by decide) _ _
  have hother : ∀ l ∈ [line, dateLine env, serverLine, contentTypeLine t.readMem t.handler,
      contentLengthLine t.handler, connectionLine env t.handler t.conn] ++ [crlf],
      str "Keep-Alive: " ++ val ≠ l := by
    simp only [List.cons_append, List.nil_append, List.forall_mem_cons, List.not_mem_nil,
      IsEmpty.forall_iff, implies_true, and_true]
    refine ⟨?_, append_ne_append 1 (by decide) (by decide) (by decide) _ _,
      append_ne_append 1 (by decide) (by decide) (by decide) _ _,
      append_ne_append 1 (by decide) (by decide) (by decide) _ _, hlength, hconnection,
      fun h => absurd (show some (chr 'K') = some (chr '\r') from congrArg List.head? h) (by decide)⟩
    rintro rfl
    exact absurd (show some (chr 'K') = some (chr 'H') from (headLine_statusLine hline).2) (by decide)
  have htimeout := (@mem_of_other _ _ _ (timeoutLine env t.handler) hother).1 hmem
  unfold timeoutLine at htimeout
  split_ifs at htimeout with hkeep
  · exact hkeep
  · exact absurd htimeout (List.append_ne_nil_of_left_ne_nil (by decide) _)

/-- **An error head** says `close`, and has no `Keep-Alive` line. -/
theorem errLines_connection {status : Int} (h : (s.markError status).errLines env = .ok lines) :
    closeLine ∈ lines ∧ ∀ val, str "Keep-Alive: " ++ val ∉ lines := by
  obtain ⟨line, hline, rfl⟩ := errLines_eq h
  refine ⟨by simp [closeLine], fun val hmem => ?_⟩
  simp only [List.mem_cons, List.not_mem_nil, or_false] at hmem
  have hhead : ∀ {l : List Byte}, str "Keep-Alive: " ++ val = l → l.head? = some (chr 'K') := by
    rintro l rfl
    rfl
  rcases hmem with h | h | h | h | h | h | h
  · exact absurd ((headLine_statusLine hline).2.symm.trans (hhead h)) (by decide)
  · exact absurd (show some (chr 'D') = some (chr 'K') from hhead h) (by decide)
  · exact absurd (hhead h) (by decide)
  · exact absurd (hhead h) (by decide)
  · exact absurd h (ne_contentLengthLine (by decide) (by decide) _ _)
  · exact absurd (hhead h) (by decide)
  · exact absurd (hhead h) (by decide)

/-- Neither the handlers nor the release make a connection younger. -/
theorem released_timeOnConnect {status : Int} {s₁ s₂ : WebSession}
    (hw : s.conn.ringBufferWrite.Inv) (ha : s.Alive) (h1 : s.handleRequest env = .ok (status, s₁))
    (h2 : s₁.releaseRead s.conn.ringBufferRead.readableBytes = .ok s₂) :
    s₂.conn.timeOnConnect = s.conn.timeOnConnect := by
  have hread := handleRequest_read ha h1
  obtain ⟨⟨rb, rfl⟩, -⟩ := hread.release hw ha h2
  obtain ⟨mem, -, hconn⟩ := hread.conn
  show s₁.conn.timeOnConnect = _
  rw [hconn]

/-! ## The two ways to an end -/

/-- **`http_request` responds with the head `lines`**, and comes to its end, `finishRequest`, in
`u`. -/
inductive Responds (env : Env) (s : WebSession) (lines : List (List Byte)) (u : WebSession) : Prop
  | served {s₁ s₂ : WebSession} (accepted : s.handleRequest env = .ok (OK, s₁))
      (release : s₁.releaseRead s.conn.ringBufferRead.readableBytes = .ok s₂)
      (head : s₂.headLines env = .ok lines) (respond : s₂.respond env OK = .ok u)
  | failed {status : Int} {s₁ s₂ : WebSession} (fails : s.handleRequest env = .ok (status, s₁))
      (not_ok : status ≠ OK)
      (release : s₁.releaseRead s.conn.ringBufferRead.readableBytes = .ok s₂)
      (head : (s₂.markError status).errLines env = .ok lines)
      (respond : s₂.respond env status = .ok u)

/-- **`http_request` ends behind a response**, whose head is among the bytes
that the connection has sent or has still to send. -/
theorem exists_responds (hw : s.conn.ringBufferWrite.Inv) (ha : s.Alive)
    (h : s.httpRequest env = .ok s') :
    ∃ lines u, s.Responds env lines u ∧ s' = u.finishRequest ∧ lines.flatten <:+: s'.stream := by
  obtain ⟨status, s₁, s₂, u, h1, h2, h3, rfl⟩ := httpRequest_eq_ok.1 h
  have hrel := handleRequest_released hw ha h1 h2
  have hrespond := h3
  unfold respond at h3
  by_cases hstatus : status = OK
  · subst hstatus
    rw [if_pos rfl] at h3
    obtain ⟨⟨code, v⟩, hv, h3⟩ := Run.bind_eq_ok.1 h3
    obtain rfl := Except.ok.inj h3
    obtain ⟨lines, tail, hlines, -, hresp, -, -, hstream, -⟩ := responseHandle_released hrel hv
    obtain ⟨hidle, -⟩ := finishRequest_spec hresp.write (hresp.alive hrel.alive)
    refine ⟨lines, v, .served h1 h2 hlines hrespond, rfl, s.stream, tail, ?_⟩
    rw [hidle.stream, hstream, List.append_assoc]
  · rw [if_neg hstatus] at h3
    obtain ⟨hresp, -, -, lines, hlines, hpending, -⟩ :=
      responseAssembleErrBuffer_spec hrel.write hrel.alive h3
    obtain ⟨hidle, -⟩ := finishRequest_spec hresp.write (hresp.alive hrel.alive)
    refine ⟨lines, u, .failed h1 hstatus h2 hlines hrespond, rfl, u.kernel.sent ++ s₂.pending, [], ?_⟩
    rw [hidle.stream, List.append_nil, List.append_assoc, ← hpending]
    rfl

/-! ## Announced and done -/

/-- Behind the response that leaves `u`, `http_request` calls `connection_active_close`. -/
def Closes (u : WebSession) : Prop := u.handler.par.keepAlive = false

theorem connectionDisconnect_state (s : WebSession) : s.connectionDisconnect.conn.state ≠ .open := by
  unfold connectionDisconnect
  simp only
  split_ifs <;> exact ConnState.noConfusion

/-- On an open connection this is what the state shows at the end. -/
theorem closes_iff (hopen : u.conn.state = .open) : u.Closes ↔ u.finishRequest.conn.state ≠ .open := by
  unfold Closes finishRequest
  simp only
  rw [(httpRequestHandleUnint_frame _).1]
  have hkeep : u.touchHandler.handler.par.keepAlive = u.handler.par.keepAlive := rfl
  rw [hkeep]
  cases u.handler.par.keepAlive with
  | true =>
    rw [if_pos rfl]
    exact iff_of_false Bool.noConfusion (not_not_intro hopen)
  | false =>
    rw [if_neg Bool.false_ne_true]
    exact iff_of_true rfl (connectionDisconnect_state _)

/-- **The head `lines` says what becomes of the connection**: `Connection: close` if and only if it
is closed, and something about `Keep-Alive` only if it is not. -/
structure Agrees (lines : List (List Byte)) (closes : Prop) : Prop where
  close : closeLine ∈ lines ↔ closes
  keepAlive : ∀ val, str "Keep-Alive: " ++ val ∈ lines → ¬ closes

/-- Behind a response with a file, `keep_alive` and the age of the connection decide. -/
theorem agrees_served {s₁ s₂ : WebSession} (hw : s.conn.ringBufferWrite.Inv) (ha : s.Alive)
    (accepted : s.handleRequest env = .ok (OK, s₁))
    (release : s₁.releaseRead s.conn.ringBufferRead.readableBytes = .ok s₂)
    (head : s₂.headLines env = .ok lines) (respond : s₂.respond env OK = .ok u) :
    Agrees lines u.Closes ↔ ¬ (s₁.handler.par.keepAlive = true ∧ s.TooOld env) := by
  have hrel := handleRequest_released hw ha accepted release
  obtain ⟨⟨code, v⟩, hv, h3⟩ := Run.bind_eq_ok.1 respond
  obtain rfl := Except.ok.inj h3
  obtain ⟨-, -, -, -, -, -, hkeep, -⟩ := responseHandle_released hrel hv
  have hold : s₂.TooOld env ↔ s.TooOld env := by
    unfold TooOld
    rw [released_timeOnConnect hw ha accepted release]
  -- the lines are written from the flag that the handlers leave
  have hclose := closeLine_mem_headLines head
  rw [hrel.handler, hold] at hclose
  have hkeepAlive : ∀ val, str "Keep-Alive: " ++ val ∈ lines → s₁.handler.par.keepAlive = true := by
    intro val hmem
    rw [← hrel.handler]
    exact keepAlive_of_mem_headLines head hmem
  have hcloses : v.Closes ↔ s₁.handler.par.keepAlive = false := by
    unfold Closes
    rw [hkeep]
  constructor
  · rintro ⟨hagree, -⟩ ⟨hlong, hlate⟩
    have hshort := hcloses.1 (hagree.1 (hclose.2 (Or.inl hlate)))
    exact Bool.noConfusion (hlong.symm.trans hshort)
  · intro hnot
    refine ⟨?_, fun val hmem hshort =>
      Bool.noConfusion ((hkeepAlive val hmem).symm.trans (hcloses.1 hshort))⟩
    rw [hclose, hcloses]
    exact or_iff_right_of_imp fun hlate =>
      Bool.eq_false_of_not_eq_true fun hlong => hnot ⟨hlong, hlate⟩

/-- Behind an error response the connection is closed, as its head says. -/
theorem agrees_failed {status : Int} {s₁ s₂ : WebSession} (hw : s.conn.ringBufferWrite.Inv)
    (ha : s.Alive) (fails : s.handleRequest env = .ok (status, s₁)) (not_ok : status ≠ OK)
    (release : s₁.releaseRead s.conn.ringBufferRead.readableBytes = .ok s₂)
    (head : (s₂.markError status).errLines env = .ok lines)
    (respond : s₂.respond env status = .ok u) : Agrees lines u.Closes := by
  have hrel := handleRequest_released hw ha fails release
  unfold Session.respond at respond
  rw [if_neg not_ok] at respond
  obtain ⟨-, -, hshort, -⟩ := responseAssembleErrBuffer_spec hrel.write hrel.alive respond
  obtain ⟨hclose, hnone⟩ := errLines_connection head
  exact ⟨iff_of_true hclose hshort, fun val hmem => absurd hmem (hnone val)⟩

/-- **Whatever the message was.** -/
theorem Responds.agree {pre m post : List Byte} (h : s.Responds env lines u)
    (hw : s.conn.ringBufferWrite.Inv) (ha : s.Alive) (hreads : s.Reads pre m post) :
    Agrees lines u.Closes ↔ ¬ (AsksToStay env m post ∧ s.TooOld env) := by
  rw [← persists_iff hreads]
  cases h with
  | @served s₁ s₂ accepted release head respond =>
    have hstays : (∃ t, s.Persists env t) ↔ s₁.handler.par.keepAlive = true := by
      constructor
      · rintro ⟨t, ht, hlong⟩
        obtain rfl : s₁ = t := congrArg Prod.snd (Run.ok_unique accepted ht)
        exact hlong
      · exact fun hlong => ⟨s₁, accepted, hlong⟩
    rw [hstays]
    exact agrees_served hw ha accepted release head respond
  | @failed status s₁ s₂ fails not_ok release head respond =>
    have hfails : ¬ ∃ t, s.Persists env t := by
      rintro ⟨t, ht, -⟩
      exact not_ok (congrArg Prod.fst (Run.ok_unique fails ht))
    exact iff_of_true (agrees_failed hw ha fails not_ok release head respond) fun h => hfails h.1

/-- **Head and end agree exactly if** the message does not ask for the connection to be kept, or the
connection is not too old to be promised it. -/
theorem agrees_iff (env : Env) (s s' : WebSession) (pre m post : List Byte)
    (hw : s.conn.ringBufferWrite.Inv) (ha : s.Alive) (hreads : s.Reads pre m post)
    (hok : s.httpRequest env = .ok s') :
    ∃ lines u, s.Responds env lines u ∧ s' = u.finishRequest ∧ lines.flatten <:+: s'.stream ∧
      (Agrees lines u.Closes ↔ ¬ (AsksToStay env m post ∧ s.TooOld env)) := by
  obtain ⟨lines, u, hresponds, hs', hhead⟩ := exists_responds hw ha hok
  exact ⟨lines, u, hresponds, hs', hhead, hresponds.agree hw ha hreads⟩

/-- A request that asks for the connection to be kept, on a connection made at time `0`. -/
def asksToStay : WebSession := received (str "GET / HTTP/1.1\r\n\r\n")

/-- A connection that was made just now. -/
theorem agrees_iff_now : ∃ s' lines u, asksToStay.httpRequest .oneFile = .ok s' ∧
    asksToStay.Responds .oneFile lines u ∧ s' = u.finishRequest ∧ Agrees lines u.Closes := by
  have hreturns : (asksToStay.httpRequest .oneFile).map connLive = .ok true := by
    decide +kernel
  obtain ⟨s', hs', -⟩ := Run.map_eq_ok.1 hreturns
  obtain ⟨lines, u, hresponds, hu, -, hiff⟩ := agrees_iff .oneFile asksToStay s' _ _ _
    RingBuffer.new_inv ⟨rfl, rfl, rfl, rfl⟩ (received_reads _) hs'
  exact ⟨s', lines, u, hs', hresponds, hu, hiff.2 fun h => absurd h.2 (by decide)⟩

/-- **A minute later** the head says `close`, and the connection is kept. -/
theorem not_agrees : ¬ ∀ (env : Env) (s s' : WebSession), s.conn.ringBufferWrite.Inv →
    s.conn.ringBufferRead.Inv → s.Alive → s.httpRequest env = .ok s' →
      ∃ lines u, s.Responds env lines u ∧ s' = u.finishRequest ∧ Agrees lines u.Closes := by
  intro h
  let later : Env := { Env.oneFile with now := 61 }
  have hreturns : (asksToStay.httpRequest later).map connLive = .ok true := by
    decide +kernel
  obtain ⟨s', hs', -⟩ := Run.map_eq_ok.1 hreturns
  have ha : asksToStay.Alive := ⟨rfl, rfl, rfl, rfl⟩
  obtain ⟨lines, u, hresponds, -, hagrees⟩ := h later asksToStay s' RingBuffer.new_inv
    (received_inv _) ha hs'
  have hkeeps : (asksToStay.handleRequest later).map (fun r => (r.1, r.2.handler.par.keepAlive)) =
      .ok (OK, true) := by
    decide +kernel
  obtain ⟨⟨status, s₁⟩, h1, hval⟩ := Run.map_eq_ok.1 hkeeps
  obtain ⟨rfl, hlong⟩ := Prod.mk.inj hval
  have hreads : asksToStay.Reads [] (str "GET / HTTP/1.1\r\n\r\n") [] := received_reads _
  exact (hresponds.agree RingBuffer.new_inv ha hreads).1 hagrees
    ⟨(persists_iff hreads).1 ⟨s₁, h1, hlong⟩, by decide⟩

end Session

end MWebServer
