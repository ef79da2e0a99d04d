import MWebServer.Web.Alike
import MWebServer.Web.Closing
import MWebServer.Web.Delivery

/-!
# Requests on one connection

The requests on a persistent connection share its request object and its read buffer.
The reset at the beginning of `http_request` sets every field of the request but
`resource_size`.  Between two messages the read buffer is empty, and its block holds
what no message has overwritten since it was allocated, zeros elsewhere; behind the
block lies memory of others.  Only the length of a body can be read on into all this.

* `httpRequest_both` — one message on two connections.
* `resting_of_run` — what any history leaves.
* `sameResponse_iff` — the same message has the same response after any two histories
  exactly when it ends too early after both or neither, and opens a resource, or the
  histories have left the same length.
-/

namespace MWebServer

namespace Session

variable {env env' : Env} {s t s' t' : WebSession} {m : List Byte}

/-! ## The read buffer between two messages -/

/-- Giving back the whole message leaves zeros in its place. -/
theorem releaseBytes_held (m tail : List Byte) :
    (held m tail).releaseBytes m.length = .ok (held [] (zeros m.length ++ tail)) := by
  have hzero : memzero (m ++ tail) 0 m.length = .ok (zeros m.length ++ tail) := by
    rw [memzero, if_pos (Int.natCast_nonneg _), memcpy_eq_ok, Int.toNat_natCast]
    exact ⟨le_rfl, by simp, by simp [zeros]⟩
  unfold RingBuffer.releaseBytes
  rw [show (held m tail).msg = m ++ tail from rfl, show (held m tail).start = 0 from rfl, hzero,
    Run.ok_bind]
  simp [held]

/-- What stands behind the message `m` when it has been read into the empty buffer of `s`: the rest
of the block, or that of a larger one in which `fresh` stands. -/
def leftBehind (s : WebSession) (fresh : Nat → Byte) (m : List Byte) : List Byte :=
  if m.length ≤ s.readMem.length then s.readMem.drop m.length
  else (muMalloc fresh (m.length + s.readMem.length : Nat)).drop m.length

/-- **A message that is read into an empty buffer stands at the beginning of the block**, whether
it fits or the block has to grow. -/
theorem readBuffer_held {fresh : Nat → Byte} {block : List Byte} (ha : s.Alive)
    (h : s.conn.ringBufferRead = held [] block) (hm : m ≠ []) :
    s.readBuffer fresh (some m) =
      .ok ((m.length : Int), s.setRead (held m (s.leftBehind fresh m))) := by
  have hpos : m.length ≠ 0 := mt List.eq_nil_of_length_eq_zero hm
  have havailable : (held [] block).availableBytes = block.length := by
    simp [RingBuffer.availableBytes, held]
  have hstart : (held [] block).readableStart = 0 := rfl
  have hblock : (held [] block).msg = block := rfl
  have hmem : s.readMem = block := by
    unfold readMem
    rw [h]
    rfl
  unfold readBuffer leftBehind
  simp only [ha.touchConn, h, hmem, havailable, hstart, hblock, Int.toNat_natCast, if_neg hpos]
  by_cases hfits : m.length ≤ block.length
  · have hcopy : memcpy block 0 (m.take block.length) = .ok (m ++ block.drop m.length) := by
      rw [List.take_of_length_le hfits, memcpy_eq_ok]
      exact ⟨le_rfl, by simpa using hfits, by simp⟩
    rw [hcopy, Run.ok_bind, if_pos (by omega), if_pos hfits]
    simp [held, hfits]
  · have hlt : block.length < m.length := not_le.1 hfits
    have hcopy : memcpy block 0 (m.take block.length) = .ok (m.take block.length) := by
      rw [memcpy_eq_ok]
      exact ⟨le_rfl, by simp, by simp [hlt.le]⟩
    -- the block grows, and the rest goes behind what was read into it
    let full : RingBuffer := ⟨0, block.length, block.length, m.take block.length⟩
    have hgrown : full.pushData fresh (m.drop block.length) = .ok _ :=
      RingBuffer.pushData_grown ⟨le_rfl, Int.natCast_nonneg _, le_rfl, by simp [full, hlt.le]⟩
        (by simp [full]; omega)
    have hcontent : full.content = m.take block.length := by simp [RingBuffer.content, full]
    have hheld : full.grown fresh (m.drop block.length) =
        held m ((muMalloc fresh (m.length + block.length : Nat)).drop m.length) := by
      have hcap : (full.cap * 2 + (m.drop block.length).length : Int) =
          (m.length + block.length : Nat) := by
        simp only [full, List.length_drop]
        omega
      have hdrop : (m.take block.length).length + (m.drop block.length).length = m.length := by
        rw [← List.length_append, List.take_append_drop]
      unfold RingBuffer.grown held
      rw [hcontent, ← List.append_assoc, List.take_append_drop, hdrop, hcap]
      simp only [RingBuffer.mk.injEq, true_and, and_true, List.length_drop, length_muMalloc,
        Int.toNat_natCast, full]
      omega
    rw [hcopy, Run.ok_bind, if_neg (by omega), if_neg hfits]
    have hbehind : ({ held [] block with
        msg := m.take block.length, end_ := (held [] block).end_ + (block.length : Int) } :
          RingBuffer) = full := by
      simp [held, full]
    rw [hbehind, hgrown, hheld]
    rfl

theorem releaseRead_held {tail : List Byte} (ha : s.Alive) (h : s.conn.ringBufferRead = held m tail) :
    s.releaseRead m.length = .ok (s.setRead (held [] (zeros m.length ++ tail))) := by
  unfold releaseRead
  simp only [ha.touchHandler, ha.touchConn, h, releaseBytes_held]
  rfl

theorem finishRequest_timeOnConnect (s : WebSession) :
    s.finishRequest.conn.timeOnConnect = s.conn.timeOnConnect := by
  have hunint : ∀ t : WebSession, t.httpRequestHandleUnint.conn = t.conn :=
    fun t => (httpRequestHandleUnint_frame t).1
  have hdisconnect : s.touchHandler.connectionDisconnect.conn.timeOnConnect =
      s.conn.timeOnConnect := by
    unfold connectionDisconnect
    simp only
    split_ifs <;> rfl
  unfold finishRequest
  simp only [hunint]
  split_ifs
  · rfl
  · exact hdisconnect

/-- **The whole message is given back** when it has been handled. -/
theorem releaseRead_handled {tail : List Byte} {status : Int} {s₁ s₂ : WebSession} (ha : s.Alive)
    (h : s.conn.ringBufferRead = held m tail) (h1 : s.handleRequest env = .ok (status, s₁))
    (h2 : s₁.releaseRead s.conn.ringBufferRead.readableBytes = .ok s₂) :
    ∃ tail', s₂ = s₁.setRead (held [] (zeros m.length ++ tail')) := by
  obtain ⟨m', tail', hlen, -, hheld⟩ := held_of_read ha h h1
  have hreleased := releaseRead_held ((handleRequest_read ha h1).alive ha) hheld
  rw [hlen] at hreleased
  rw [h, readableBytes_held, hreleased] at h2
  exact ⟨tail', (Except.ok.inj h2).symm⟩

/-- **A request leaves an empty read buffer**, a write buffer that is at its beginning if it is
empty, and the time of the connect. -/
theorem httpRequest_empties {tail : List Byte} (hw : s.conn.ringBufferWrite.Inv) (ha : s.Alive)
    (h : s.conn.ringBufferRead = held m tail) (hok : s.httpRequest env = .ok s') :
    (∃ block, s'.conn.ringBufferRead = held [] block) ∧
      s'.conn.timeOnConnect = s.conn.timeOnConnect ∧ (s.Rewound → s'.Rewound) := by
  obtain ⟨status, s₁, s₂, s₃, h1, h2, h3, rfl⟩ := httpRequest_eq_ok.1 hok
  have hread := handleRequest_read ha h1
  have hrel := handleRequest_released hw ha h1 h2
  obtain ⟨tail', rfl⟩ := releaseRead_handled ha h h1 h2
  have hresp : (s₁.setRead (held [] (zeros m.length ++ tail'))).Responded s₃ := by
    unfold respond at h3
    split_ifs at h3 with hstatus
    · obtain ⟨⟨code, t⟩, ht, h3⟩ := Run.bind_eq_ok.1 h3
      obtain rfl := Except.ok.inj h3
      obtain ⟨-, -, -, -, hresp, -⟩ := responseHandle_released hrel ht
      exact hresp
    · exact (responseAssembleErrBuffer_spec hrel.write hrel.alive h3).1
  obtain ⟨hidle, -⟩ := finishRequest_spec hresp.write (hresp.alive hrel.alive)
  refine ⟨⟨zeros m.length ++ tail', ?_⟩, ?_, fun hs => ?_⟩
  · rw [hidle.read, hresp.read]
    rfl
  · obtain ⟨rb, -, hconn⟩ := hresp.conn
    obtain ⟨mem, -, hconn'⟩ := hread.conn
    rw [finishRequest_timeOnConnect, hconn]
    show s₁.conn.timeOnConnect = _
    rw [hconn']
  · have hrewound : s₃.Rewound := hresp.rewound (by
      unfold Rewound
      rw [hrel.pending]
      show _ → s₁.conn.ringBufferWrite.start = 0
      rw [hread.write]
      exact hs)
    unfold Rewound
    rw [hidle.pending, hidle.write]
    exact hrewound

/-! ## What a history leaves -/

/-- What a history leaves of a connection made at `time`, while it is open. -/
structure Resting (time : Int) (s : WebSession) : Prop where
  read : ∃ block, s.conn.ringBufferRead = held [] block
  timeOnConnect : s.conn.timeOnConnect = time
  rewound : s.Rewound

/-- A message that keeps the connection. -/
theorem resting_answered {time : Int} {incoming : Option (List Byte)} {n : Int} {rb : RingBuffer}
    (hw : s.conn.ringBufferWrite.Inv) (ha : s.Alive) (h : s.Resting time)
    (hread : s.readBuffer env.fresh incoming = .ok (n, s.setRead rb)) (hdata : n > 0)
    (hok : (s.setRead rb).httpRequest env = .ok s') : s'.Resting time := by
  obtain ⟨-, hn⟩ := readBuffer_frame ha hread
  cases incoming with
  | none => exact absurd hdata (by rw [hn]; decide)
  | some m =>
    have hm : m ≠ [] := by
      rintro rfl
      exact absurd hdata (by rw [hn]; decide)
    obtain ⟨k, hk⟩ := h.read
    rw [readBuffer_held ha hk hm] at hread
    have hrb : (s.setRead (held m _)).conn.ringBufferRead = rb :=
      congrArg (fun t : WebSession => t.conn.ringBufferRead) (congrArg Prod.snd (Except.ok.inj hread))
    obtain ⟨hempty, htime, hrewound⟩ := httpRequest_empties (s := s.setRead rb) hw
      (ha.of_life rfl rfl) hrb.symm hok
    exact ⟨hempty, htime.trans h.timeOnConnect, hrewound h.rewound⟩

/-- **What every turn keeps of a connection**, until it is closed. -/
theorem resting_turn {time : Int} {u : Turn} (h : s.Steady)
    (hrest : s.conn.state = .open → s.Resting time) (hok : s.turn u = .ok s') :
    (s'.Steady ∧ (s'.conn.state = .open → s'.Resting time)) ∨ s'.Gone := by
  by_cases hev : s.evLive = true
  · have hactive := h.activate u.ready
    have hkeeps := turn_keeps (X := fun s => s.conn.state = .open → s.Resting time) h hev (t := u)
      (fun hopen => ⟨(hrest hopen).read, (hrest hopen).timeOnConnect, (hrest hopen).rewound⟩)
      (fun _ hX hopen => ⟨(hX hopen).read, (hX hopen).timeOnConnect, (hX hopen).rewound⟩) ?_ ?_
      hrest hok
    · exact hkeeps.imp_right Freed.gone
    · intro v hr hup _ hspared hside hX hopen
      cases hside with
      | closing state waits ev =>
        rw [state] at hopen
        cases hopen
      | @answered n rb s₁ head read data ok persists head_eq state sent =>
        exact resting_answered hactive.write (hactive.alive hev) (hX (state.symm.trans hopen)) read data ok
    · rintro v w hspared hside ⟨⟨rb, hconn⟩, hrewound⟩ hX hopen
      have hrest := hX (by rw [hconn] at hopen; exact hopen)
      exact ⟨by rw [hconn]; exact hrest.read, by rw [hconn]; exact hrest.timeOnConnect,
        hrewound hrest.rewound⟩
  · obtain rfl := turn_eq_self hev hok
    exact Or.inl ⟨h, hrest⟩

/-- **What any history leaves.** -/
theorem resting_of_run {connfd time : Int} {turns : List Turn}
    (hrun : Run.run turn (start connfd time) turns = .ok s) (hlive : s.connLive = true)
    (hopen : s.conn.state = .open) : s.Steady ∧ s.Resting time := by
  have hkeeps := Run.run_keeps
    (I := fun s => (s.Steady ∧ (s.conn.state = .open → s.Resting time)) ∨ s.Gone) ?_
    (Or.inl ⟨steady_start connfd time, fun _ => ⟨⟨[], rfl⟩, rfl, fun _ => rfl⟩⟩) hrun
  · rcases hkeeps with ⟨hsteady, hrest⟩ | hgone
    · exact ⟨hsteady, hrest hopen⟩
    · exact Bool.noConfusion (hgone.1.symm.trans hlive)
  · rintro s u s' (⟨hsteady, hrest⟩ | hgone) hok
    · exact resting_turn hsteady hrest hok
    · rw [hgone.turn hok]
      exact Or.inr hgone

/-! ## The head -/

/-- The keys of `Mime_Dict` are literals. -/
theorem mimeDict_keys (mem mem' : Mem) :
    ∀ i, ∀ n ∈ mimeDict.table i, n.k.bytes mem = n.k.bytes mem' := by
  intro i n hn
  refine Dict.bytes_of_mem_build (fun p hp => ?_) hn mem mem'
  obtain ⟨e, -, rfl⟩ := List.mem_map.1 hp
  exact ⟨e.1, rfl⟩

/-- The type is looked up when the message is gone, and the extension has become zeros. -/
theorem contentType_zeros {r : Request} {n : Nat} (h : r.par.url.mimeExtension.Within n)
    (tail : List Byte) : contentType (zeros n ++ tail) r = contentType (zeros n) r := by
  have hbytes : r.par.url.mimeExtension.bytes (zeros n ++ tail) =
      r.par.url.mimeExtension.bytes (zeros n) :=
    Ssstr.Within.bytes_append (by rw [length_zeros]; exact h) _
  unfold contentType
  rw [Dict.get_congr (mimeDict_keys _ _) hbytes]

/-- The status line depends on the version and the status alone. -/
theorem statusLine_congr {r r' : Request} (hversion : r'.par.version = r.par.version)
    (hcode : r'.statusCode = r.statusCode) : statusLine r' = statusLine r := by
  unfold statusLine
  rw [hversion, hcode]

/-- What the head of a response depends on. -/
theorem headLines_both (henv : SameWorld env env')
    (hversion : t.handler.par.version = s.handler.par.version)
    (hkeep : t.handler.par.keepAlive = s.handler.par.keepAlive)
    (hsize : t.handler.resourceSize = s.handler.resourceSize)
    (hcode : t.handler.statusCode = s.handler.statusCode)
    (htime : t.conn.timeOnConnect = s.conn.timeOnConnect)
    (htype : contentType t.readMem t.handler = contentType s.readMem s.handler) :
    t.headLines env' = s.headLines env := by
  obtain ⟨send, sendfile, fresh, beyond, rfl⟩ := henv
  have hcontent : contentTypeLine t.readMem t.handler = contentTypeLine s.readMem s.handler := by
    unfold contentTypeLine
    rw [htype]
  have hlength : contentLengthLine t.handler = contentLengthLine s.handler := by
    unfold contentLengthLine
    rw [hsize]
  have hconnection : connectionLine { env with
      send := send, sendfile := sendfile, fresh := fresh, beyond := beyond } t.handler t.conn =
      connectionLine env s.handler s.conn := by
    unfold connectionLine
    rw [hkeep, htime]
  have htimeout : timeoutLine { env with
      send := send, sendfile := sendfile, fresh := fresh, beyond := beyond } t.handler =
      timeoutLine env s.handler := by
    unfold timeoutLine
    rw [hkeep]
  unfold headLines
  rw [statusLine_congr hversion hcode, hcontent, hlength, hconnection, htimeout]
  rfl

/-! ## One message on two connections -/

/-- The connection stays open. -/
def Keeps (s : WebSession) : Prop := s.connLive = true ∧ s.conn.state = .open

/-- **A request keeps the connection exactly when it is accepted and asks for it.** -/
theorem httpRequest_keeps_iff {status : Int} {s₁ : WebSession} (hw : s.conn.ringBufferWrite.Inv)
    (ha : s.Alive) (hopen : s.conn.state = .open) (h1 : s.handleRequest env = .ok (status, s₁))
    (hok : s.httpRequest env = .ok s') :
    s'.Keeps ↔ status = OK ∧ s₁.handler.par.keepAlive = true := by
  obtain ⟨-, -, -, hout⟩ := httpRequest_outcome hw ha hok
  have hpersists : status = OK ∧ s₁.handler.par.keepAlive = true ↔ ∃ u, s.Persists env u := by
    constructor
    · rintro ⟨rfl, hkeep⟩
      exact ⟨s₁, h1, hkeep⟩
    · rintro ⟨u, hu, hkeep⟩
      obtain ⟨rfl, rfl⟩ := Prod.mk.inj (Run.ok_unique h1 hu)
      exact ⟨rfl, hkeep⟩
  rw [hpersists]
  cases hout with
  | freed closes touched empty freed =>
    refine iff_of_false (fun hkeeps => Bool.noConfusion (freed.gone.1.symm.trans hkeeps.1)) ?_
    rintro ⟨u, hu, hkeep⟩
    obtain ⟨v, -, -, hv, hshort, -⟩ := closes
    obtain rfl : u = v := congrArg Prod.snd (Run.ok_unique hu hv)
    exact Bool.noConfusion (hshort.symm.trans hkeep)
  | closing not_closes short life touched waits state ev =>
    refine iff_of_false (fun hkeeps => ?_) fun ⟨u, hu⟩ => short u hu
    rw [hkeeps.2] at state
    cases state
  | @kept u head tail not_closes persists head_eq stream file hlife touched state sent =>
    simp only [life, Prod.mk.injEq] at hlife
    exact iff_of_true ⟨hlife.1.trans ha.conn, state.trans hopen⟩ ⟨u, persists⟩

/-- A connection made at `time` that was at rest and has received `m`, into a block that goes on
with `tail`. -/
structure Receives (time : Int) (m tail : List Byte) (s : WebSession) : Prop where
  alive : s.Alive
  open_ : s.conn.state = .open
  timeOnConnect : s.conn.timeOnConnect = time
  read : s.conn.ringBufferRead = held m tail
  write : s.conn.ringBufferWrite.Inv
  empty : s.WriteEmpty

theorem Receives.inv {time : Int} {tail : List Byte} (h : s.Receives time m tail) :
    s.conn.ringBufferRead.Inv := by
  rw [h.read]
  exact held_inv m tail

/-- The next call of `send` and the next one of `sendfile` have the same room. -/
def SameSocket (env env' : Env) (s t : WebSession) : Prop :=
  env'.send t.kernel.sends = env.send s.kernel.sends ∧
    env'.sendfile t.kernel.sendfiles = env.sendfile s.kernel.sendfiles

section Two

variable {time status : Int} {tail tail' : List Byte} {s₁ t₁ : WebSession}

/-- A request that is accepted, on a write buffer with nothing in it, is responded to. -/
theorem httpRequest_serves (hs : s.Receives time m tail) (h1 : s.handleRequest env = .ok (OK, s₁)) :
    ∃ s', s.httpRequest env = .ok s' := by
  have hread := handleRequest_read hs.alive h1
  obtain ⟨rb, h2, -⟩ := handleRequest_releases hs.inv hs.alive h1
  have hrel := handleRequest_released hs.write hs.alive h1 h2
  obtain ⟨lines, hlines⟩ := headLines_returns env (s := s₁.setRead rb) hread.statusCode
  have hstart : (s₁.setRead rb).conn.ringBufferWrite.start = 0 := by
    show s₁.conn.ringBufferWrite.start = 0
    rw [hread.write]
    exact hs.empty.1
  obtain ⟨t, happend⟩ := appendAll_returns env lines hrel.write hstart hrel.alive
  obtain ⟨ret, u, hresp, -⟩ := responseHandle_spec hrel.write hrel.alive hrel.resHandler hlines happend
  refine ⟨_, httpRequest_eq_ok.2 ⟨OK, s₁, _, (u.afterHead env ret).2, h1, h2, ?_, rfl⟩⟩
  unfold respond
  rw [if_pos rfl, hresp]
  rfl

/-- A request that is refused, on a write buffer with nothing in it, is answered with the page and
the head of an error. -/
theorem httpRequest_refuses (hs : s.Receives time m tail)
    (h1 : s.handleRequest env = .ok (status, s₁)) (hstatus : status ≠ OK) :
    ∃ s' lines, s.httpRequest env = .ok s' ∧ (s₁.markError status).errLines env = .ok lines ∧
      s'.stream = s.stream ++ (s.errBody env ++ lines.flatten) := by
  obtain ⟨s', lines, hok, hlines, -, -, -, hpending, hsent⟩ :=
    httpRequest_fails hs.write hs.inv hs.alive hs.empty h1 hstatus
  refine ⟨s', lines, hok, hlines, ?_⟩
  unfold Session.stream
  rw [hs.empty.pending, List.append_nil, hsent, hpending, List.append_assoc]

/-- A message that is handled is answered. -/
theorem httpRequest_answered (hs : s.Receives time m tail)
    (h1 : s.handleRequest env = .ok (status, s₁)) : ∃ s', s.httpRequest env = .ok s' := by
  by_cases hstatus : status = OK
  · subst hstatus
    exact httpRequest_serves hs h1
  · obtain ⟨s', lines, hok, -⟩ := httpRequest_refuses hs h1 hstatus
    exact ⟨s', hok⟩

/-- The type that is announced depends on what the request line has recorded. -/
theorem contentType_line {mem : Mem} {r r' : Request} (h : LineKept r.par r'.par) :
    contentType mem r' = contentType mem r := by
  have herr : r'.par.errReq = r.par.errReq := congrArg Prod.snd h.response
  unfold contentType
  rw [herr, h.url]

/-- **Two requests for one resource have one response.** -/
theorem httpRequest_served (henv : SameWorld env env') (hsocket : SameSocket env env' s t)
    (hs : s.Receives time m tail) (ht : t.Receives time m tail')
    (h1 : s.handleRequest env = .ok (OK, s₁)) (ht1 : t.handleRequest env' = .ok (OK, t₁))
    (hsame : SameResource s₁ t₁) (hline : LineKept s₁.handler.par t₁.handler.par)
    (hkeep : t₁.handler.par.keepAlive = s₁.handler.par.keepAlive)
    (hok : s.httpRequest env = .ok s') (hok' : t.httpRequest env' = .ok t') :
    ∃ r, s'.stream = s.stream ++ r ∧ t'.stream = t.stream ++ r := by
  have hread := handleRequest_read hs.alive h1
  have hread' := handleRequest_read ht.alive ht1
  obtain ⟨mem, -, hconn⟩ := hread.conn
  obtain ⟨mem', -, hconn'⟩ := hread'.conn
  have hmime := within_of_ok (reads_held hs.read) h1
  obtain ⟨head, ⟨s₂, lines, h2, hlines, rfl⟩, hstream⟩ :=
    httpRequest_stream hs.write hs.inv hs.alive h1 hok
  obtain ⟨head, ⟨t₂, lines', ht2, hlines', rfl⟩, hstream'⟩ :=
    httpRequest_stream ht.write ht.inv ht.alive ht1 hok'
  -- both have given the message back
  obtain ⟨left, rfl⟩ := releaseRead_handled hs.alive hs.read h1 h2
  obtain ⟨left', rfl⟩ := releaseRead_handled ht.alive ht.read ht1 ht2
  have hhead : (t₁.setRead (held [] (zeros m.length ++ left'))).headLines env' =
      (s₁.setRead (held [] (zeros m.length ++ left))).headLines env := by
    refine headLines_both henv hline.version hkeep hsame.size
      (hread'.statusCode.trans hread.statusCode.symm) ?_ ?_
    · show t₁.conn.timeOnConnect = s₁.conn.timeOnConnect
      rw [hconn, hconn']
      exact ht.timeOnConnect.trans hs.timeOnConnect.symm
    · show contentType (zeros m.length ++ left') t₁.handler =
        contentType (zeros m.length ++ left) s₁.handler
      rw [contentType_line hline, contentType_zeros hmime, contentType_zeros hmime]
  obtain rfl := Run.ok_unique (hhead.trans hlines) hlines'
  have htakes : t.TakesHead env' lines.flatten ↔ s.TakesHead env lines.flatten := by
    unfold TakesHead
    rw [hsocket.1, ht.empty.pending, hs.empty.pending]
  have hfile : t₁.fileSent env' t.kernel.sendfiles = s₁.fileSent env s.kernel.sendfiles := by
    unfold fileSent
    rw [hsocket.2, hsame.content, hsame.size]
  rw [htakes, hfile] at hstream'
  rcases hstream with ⟨htake, hstream⟩ | ⟨hnot, hstream⟩
  · exact ⟨_, hstream, (hstream'.resolve_right fun h => h.1 htake).2⟩
  · exact ⟨_, hstream, (hstream'.resolve_left fun h => hnot h.1).2⟩

/-- A length is written as it is, unless it is negative. -/
theorem contentLengthLine_eq_iff {r r' : Request} : contentLengthLine r = contentLengthLine r' ↔
    r.resourceSize = r'.resourceSize ∨ (r.resourceSize < 0 ∧ r'.resourceSize < 0) := by
  have hwrites : ∀ {x : Request}, 0 ≤ x.resourceSize → contentLengthLine x ≠ [] := by
    intro x hx
    unfold contentLengthLine
    rw [if_pos hx]
    exact List.append_ne_nil_of_left_ne_nil (by decide) _
  have hnone : ∀ {x : Request}, x.resourceSize < 0 → contentLengthLine x = [] :=
    fun hx => if_neg (not_le.2 hx)
  rcases lt_or_ge r.resourceSize 0 with hr | hr
  · rw [hnone hr]
    rcases lt_or_ge r'.resourceSize 0 with hr' | hr'
    · exact iff_of_true (hnone hr').symm (Or.inr ⟨hr, hr'⟩)
    · exact iff_of_false (hwrites hr').symm (by omega)
  · rcases lt_or_ge r'.resourceSize 0 with hr' | hr'
    · rw [hnone hr']
      exact iff_of_false (hwrites hr) (by omega)
    · -- the digits tell the two apart
      obtain ⟨n, hn⟩ := Int.eq_ofNat_of_zero_le hr
      obtain ⟨k, hk⟩ := Int.eq_ofNat_of_zero_le hr'
      unfold contentLengthLine
      rw [if_pos hr, if_pos hr', List.append_cancel_left_eq, List.append_cancel_right_eq, hn, hk]
      constructor
      · intro h
        have hvalue := congrArg decimal h
        rw [decimal_str, decimal_str] at hvalue
        exact Or.inl hvalue
      · rintro (h | h)
        · rw [h]
        · omega

/-- **Two requests that fail in one way** have responses that differ in the length they announce,
if in anything. -/
theorem httpRequest_refused (henv : SameWorld env env') (hsocket : SameSocket env env' s t)
    (hs : s.Receives time m tail) (ht : t.Receives time m tail')
    (h1 : s.handleRequest env = .ok (status, s₁)) (ht1 : t.handleRequest env' = .ok (status, t₁))
    (hstatus : status ≠ OK) (hversion : t₁.handler.par.version = s₁.handler.par.version)
    (hok : s.httpRequest env = .ok s') (hok' : t.httpRequest env' = .ok t') :
    ∃ r r', s'.stream = s.stream ++ r ∧ t'.stream = t.stream ++ r' ∧
      (r = r' ↔ contentLengthLine s₁.handler = contentLengthLine t₁.handler) := by
  obtain ⟨u, lines, hu, hlines, hstream⟩ := httpRequest_refuses hs h1 hstatus
  obtain rfl := Run.ok_unique hok hu
  obtain ⟨v, lines', hv, hlines', hstream'⟩ := httpRequest_refuses ht ht1 hstatus
  obtain rfl := Run.ok_unique hok' hv
  obtain ⟨line, hline, rfl⟩ := errLines_eq hlines
  obtain ⟨line', hline', rfl⟩ := errLines_eq hlines'
  have hsame : statusLine (t₁.markError status).handler = statusLine (s₁.markError status).handler :=
    statusLine_congr hversion rfl
  obtain rfl := Run.ok_unique hline (hsame.symm.trans hline')
  obtain ⟨send, sendfile, fresh, beyond, rfl⟩ := henv
  have hbody : t.errBody { env with
      send := send, sendfile := sendfile, fresh := fresh, beyond := beyond } = s.errBody env := by
    unfold errBody
    rw [hsocket.2]
    rfl
  have hdate : dateLine { env with
      send := send, sendfile := sendfile, fresh := fresh, beyond := beyond } = dateLine env := rfl
  refine ⟨_, _, hstream, hstream', ?_⟩
  rw [hbody, hdate, List.append_cancel_left_eq]
  simp only [List.flatten_cons, List.append_cancel_left_eq, List.append_cancel_right_eq]

/-! ### A message that is complete for one of them -/

/-- The status line of a response with a file is not that of a request for more. -/
theorem statusLine_ne {r r' : Request} {line line' : List Byte} (hline : statusLine r = .ok line)
    (hline' : statusLine r' = .ok line') (hcode : r.statusCode = 200) (hcode' : r'.statusCode = AGAIN)
    (x y : List Byte) : line ++ x ≠ line' ++ y := by
  have hok : statusTable 200 = .ok (some (str "200 OK")) := by decide +kernel
  have hagain : statusTable AGAIN = .ok none := by decide +kernel
  unfold statusLine at hline hline'
  rw [hcode, hok] at hline
  rw [hcode', hagain] at hline'
  rw [← Except.ok.inj hline, ← Except.ok.inj hline']
  -- behind the version comes a digit, or the end of the line
  refine append_ne_append 10 ?_ ?_ ?_ _ _ <;> split_ifs <;> decide +kernel

/-- **A response with a file is no request for more**, unless the page of an error begins like the
head of a response. -/
theorem served_ne_refused (hs : s.Receives time m tail) (ht : t.Receives time m tail')
    (h1 : s.handleRequest env = .ok (OK, s₁)) (ht1 : t.handleRequest env' = .ok (AGAIN, t₁))
    (hok : s.httpRequest env = .ok s') (hok' : t.httpRequest env' = .ok t') :
    ∃ r r', s'.stream = s.stream ++ r ∧ t'.stream = t.stream ++ r' ∧
      (r = r' → (errorPage env').head? = some (chr 'H')) := by
  obtain ⟨head, ⟨s₂, lines, h2, hlines, rfl⟩, hstream⟩ :=
    httpRequest_stream hs.write hs.inv hs.alive h1 hok
  obtain ⟨v, lines', hv, hlines', hstream'⟩ := httpRequest_refuses ht ht1 (by decide)
  obtain rfl := Run.ok_unique hok' hv
  obtain ⟨left, rfl⟩ := releaseRead_handled hs.alive hs.read h1 h2
  unfold headLines at hlines
  obtain ⟨line, hline, hlines⟩ := Run.bind_eq_ok.1 hlines
  obtain ⟨line', hline', rfl⟩ := errLines_eq hlines'
  obtain ⟨y, hy⟩ : ∃ y, s'.stream = s.stream ++ (line ++ y) := by
    rw [← Except.ok.inj hlines] at hstream
    rcases hstream with ⟨-, hstream⟩ | ⟨-, hstream⟩
    · exact ⟨_, by rw [hstream, List.flatten_cons, List.append_assoc]⟩
    · exact ⟨_, by rw [hstream, List.flatten_cons]⟩
  refine ⟨_, _, hy, hstream', fun heq => ?_⟩
  rw [List.flatten_cons] at heq
  obtain ⟨rest, hpage⟩ := errBody_within env' t
  cases hbody : t.errBody env' with
  | nil =>
    -- no page goes before the head
    rw [hbody, List.nil_append] at heq
    exact absurd heq (statusLine_ne hline hline' (handleRequest_read hs.alive h1).statusCode rfl _ _)
  | cons c cs =>
    rw [hbody] at heq hpage
    have hfirst := (headLine_statusLine hline).2
    obtain ⟨c', cs', rfl⟩ := List.exists_cons_of_ne_nil (l := line) (by rintro rfl; cases hfirst)
    rw [← hpage]
    show some c = _
    rw [← (List.cons.inj heq).1]
    exact hfirst

/-- The two histories make no difference to a request for `m`: it ends too early after both or after
neither; and it opens a resource, or they have left one length, or two that are not written. -/
def Indifferent (env env' : Env) (m tail tail' : List Byte) (s t : WebSession) : Prop :=
  (Unfinished env [] m tail ↔ Unfinished env' [] m tail') ∧
    (Opens env m ∨ s.handler.resourceSize = t.handler.resourceSize ∨
      (s.handler.resourceSize < 0 ∧ t.handler.resourceSize < 0))

/-- Both are kept or neither, when the handlers have made the same of the message. -/
theorem keeps_both (hs : s.Receives time m tail) (ht : t.Receives time m tail')
    (h1 : s.handleRequest env = .ok (status, s₁)) (ht1 : t.handleRequest env' = .ok (status, t₁))
    (hkeep : status = OK → t₁.handler.par.keepAlive = s₁.handler.par.keepAlive)
    (hok : s.httpRequest env = .ok s') (hok' : t.httpRequest env' = .ok t') :
    s'.Keeps ↔ t'.Keeps := by
  rw [httpRequest_keeps_iff hs.write hs.alive hs.open_ h1 hok,
    httpRequest_keeps_iff ht.write ht.alive ht.open_ ht1 hok']
  constructor
  · exact fun ⟨hstatus, hstays⟩ => ⟨hstatus, (hkeep hstatus).trans hstays⟩
  · exact fun ⟨hstatus, hstays⟩ => ⟨hstatus, (hkeep hstatus).symm.trans hstays⟩

/-- **One message on two connections**: the responses are the same, and both connections are kept or
neither, where the histories make no difference.  Where they make one, the responses differ, unless
the page of an error begins like a response. -/
theorem httpRequest_both (henv : SameWorld env env') (hsocket : SameSocket env env' s t)
    (hs : s.Receives time m tail) (ht : t.Receives time m tail') (hm : m ≠ [])
    (hok : s.httpRequest env = .ok s') :
    ∃ t' r r', t.httpRequest env' = .ok t' ∧ s'.stream = s.stream ++ r ∧ t'.stream = t.stream ++ r' ∧
      (Indifferent env env' m tail tail' s t → r = r' ∧ (s'.Keeps ↔ t'.Keeps)) ∧
      (r = r' → Indifferent env env' m tail tail' s t ∨ (errorPage env).head? = some (chr 'H')) := by
  obtain ⟨status, s₁, -, -, h1, -⟩ := httpRequest_eq_ok.1 hok
  have hreads := reads_held hs.read
  have hreads' := reads_held ht.read
  obtain ⟨status', t₁, ht1, hadvanced⟩ := handleRequest_both henv hreads hreads' hm h1
  obtain ⟨t', hok'⟩ := httpRequest_answered ht ht1
  have hagain := handleRequest_again_iff hreads h1
  have hagain' := handleRequest_again_iff hreads' ht1
  have hpage : errorPage env' = errorPage env := by
    obtain ⟨send, sendfile, fresh, beyond, rfl⟩ := henv
    rfl
  have hne : ¬ OK = AGAIN := by decide
  cases hadvanced with
  | opened opens same line code decided =>
    rcases code with rfl | ⟨rfl, rfl⟩ | ⟨rfl, rfl⟩
    · -- the same answer on both
      have hindifferent : Indifferent env env' m tail tail' s t :=
        ⟨hagain.symm.trans hagain', Or.inl opens⟩
      have hkeeps := keeps_both hs ht h1 ht1 (fun hstatus => decided hstatus hstatus) hok hok'
      obtain ⟨r, hr, hr'⟩ : ∃ r, s'.stream = s.stream ++ r ∧ t'.stream = t.stream ++ r := by
        by_cases hstatus : status' = OK
        · subst hstatus
          exact httpRequest_served henv hsocket hs ht h1 ht1 same line (decided rfl rfl) hok hok'
        · obtain ⟨r, r', hr, hr', heq⟩ :=
            httpRequest_refused henv hsocket hs ht h1 ht1 hstatus line.version hok hok'
          rw [← heq.2 (contentLengthLine_eq_iff.2 (Or.inl same.size.symm))] at hr'
          exact ⟨r, hr, hr'⟩
      exact ⟨t', r, r, hok', hr, hr', fun _ => ⟨rfl, hkeeps⟩, fun _ => Or.inl hindifferent⟩
    · -- the first finds the message complete, the second does not
      obtain ⟨r, r', hr, hr', hdiffer⟩ := served_ne_refused hs ht h1 ht1 hok hok'
      refine ⟨t', r, r', hok', hr, hr', fun h => ?_, fun heq => Or.inr (hpage ▸ hdiffer heq)⟩
      exact absurd (hagain.2 (h.1.2 (hagain'.1 rfl))) hne
    · -- and the other way round
      obtain ⟨r', r, hr', hr, hdiffer⟩ := served_ne_refused ht hs ht1 h1 hok' hok
      refine ⟨t', r, r', hok', hr, hr', fun h => ?_, fun heq => Or.inr (hdiffer heq.symm)⟩
      exact absurd (hagain'.2 (h.1.1 (hagain.1 rfl))) hne
  | refused closed fails par left right =>
    obtain ⟨r, r', hr, hr', heq⟩ := httpRequest_refused henv hsocket hs ht h1 ht1 fails
      (congrArg ParseArchive.version par) hok hok'
    have hkeeps := keeps_both hs ht h1 ht1 (fun hstatus => absurd hstatus fails) hok hok'
    rw [contentLengthLine_eq_iff, left, right] at heq
    exact ⟨t', r, r', hok', hr, hr', fun h => ⟨heq.2 (h.2.resolve_left closed), hkeeps⟩,
      fun h => Or.inl ⟨hagain.symm.trans hagain', Or.inr (heq.1 h)⟩⟩

end Two

/-! ## Two histories -/

/-- A connection between two messages: it is open, and all that was to be sent is sent. -/
structure Rests (s : WebSession) : Prop where
  conn : s.connLive = true
  ev : s.evLive = true
  open_ : s.conn.state = .open
  sent : s.pending = []

theorem Resting.writeEmpty {time : Int} (h : s.Resting time) (hw : s.conn.ringBufferWrite.Inv)
    (hempty : s.pending = []) : s.WriteEmpty := by
  have hlen := RingBuffer.length_content hw
  rw [show s.conn.ringBufferWrite.content = [] from hempty, List.length_nil,
    RingBuffer.readableBytes] at hlen
  have hstart := h.rewound hempty
  exact ⟨hstart, by omega⟩

/-- **A message that arrives at a connection which rests.** -/
theorem receives_of_run {connfd time : Int} {turns : List Turn} (env : Env) (hm : m ≠ [])
    (hrun : Run.run turn (start connfd time) turns = .ok s) (h : s.Rests) :
    s.readBuffer env.fresh (some m) =
        .ok ((m.length : Int), s.setRead (held m (s.leftBehind env.fresh m))) ∧
      (s.setRead (held m (s.leftBehind env.fresh m))).Receives time m (s.leftBehind env.fresh m) := by
  obtain ⟨hsteady, hrest⟩ := resting_of_run hrun h.conn h.open_
  have ha := hsteady.alive h.ev
  obtain ⟨block, hblock⟩ := hrest.read
  exact ⟨readBuffer_held ha hblock hm, ha.of_life rfl rfl, h.open_, hrest.timeOnConnect, rfl,
    hsteady.write, hrest.writeEmpty hsteady.write h.sent⟩

/-- The readable callback on a message that has been read. -/
theorem eventReadableCallback_eq {rb : RingBuffer} (ha : (s.setRead rb).Alive) (hm : m ≠ [])
    (hread : s.readBuffer env.fresh (some m) = .ok ((m.length : Int), s.setRead rb)) :
    s.eventReadableCallback env (onMessage env) (some m) = (s.setRead rb).httpRequest env := by
  have hpos : (m.length : Int) > 0 := by
    have := List.length_pos_iff.2 hm
    omega
  unfold eventReadableCallback onMessage
  rw [hread, Run.ok_bind]
  simp only
  rw [if_pos hpos, ha.touchConn]

/-- **Requests on one connection do not interfere, except through `resource_size`**, and through
what stands in memory behind a message, where it is read on to the end of a number.  After two
histories of a connection, each with everything answered and sent, the same message has the same
response and the same decision to keep the connection if the histories make no difference to it; and
if they make one, the responses differ, but for an `error.html` that begins like a response. -/
theorem sameResponse_iff (env env' : Env) (connfd time : Int) (earlier earlier' : List Turn)
    (s t s' : WebSession) (m : List Byte) (hs : Run.run turn (start connfd time) earlier = .ok s)
    (ht : Run.run turn (start connfd time) earlier' = .ok t) (hrest : s.Rests) (hrest' : t.Rests)
    (hm : m ≠ []) (henv : SameWorld env env') (hsocket : SameSocket env env' s t)
    (hok : s.eventReadableCallback env (onMessage env) (some m) = .ok s') :
    ∃ t' r r', t.eventReadableCallback env' (onMessage env') (some m) = .ok t' ∧
      s'.stream = s.stream ++ r ∧ t'.stream = t.stream ++ r' ∧
      (Indifferent env env' m (s.leftBehind env.fresh m) (t.leftBehind env'.fresh m) s t →
        r = r' ∧ (s'.Keeps ↔ t'.Keeps)) ∧
      (r = r' → Indifferent env env' m (s.leftBehind env.fresh m) (t.leftBehind env'.fresh m) s t ∨
        (errorPage env).head? = some (chr 'H')) := by
  obtain ⟨hread, hreceives⟩ := receives_of_run env hm hs hrest
  obtain ⟨hread', hreceives'⟩ := receives_of_run env' hm ht hrest'
  rw [eventReadableCallback_eq hreceives.alive hm hread] at hok
  rw [eventReadableCallback_eq hreceives'.alive hm hread']
  exact httpRequest_both (s := s.setRead (held m (s.leftBehind env.fresh m)))
    (t := t.setRead (held m (t.leftBehind env'.fresh m))) henv hsocket hreceives hreceives' hm hok

/-! ## A file of one byte -/

/-- A request for the file, and the same request as a turn of the event loop. -/
def getByte : List Byte := str "GET / HTTP/1.1\r\n\r\n"

def askForByte : Turn := ⟨oneByte 1000, ⟨⟨true, false, false, false, false⟩, some getByte⟩⟩

/-- The connection rests before the request and behind it, where the size of the file stays. -/
theorem rests_askForByte {turns : List Turn} {size : Int}
    (h : (turns = [] ∧ size = 0) ∨ (turns = [askForByte] ∧ size = 1)) :
    ∃ s, Run.run turn (start 5 0) turns = .ok s ∧ s.Rests ∧ s.handler.resourceSize = size := by
  have hrun : (Run.run turn (start 5 0) turns).map (fun s =>
      (s.connLive, s.evLive, s.conn.state, s.pending, s.handler.resourceSize)) =
      .ok (true, true, .open, [], size) := by
    rcases h with ⟨rfl, rfl⟩ | ⟨rfl, rfl⟩ <;> decide +kernel
  obtain ⟨s, hs, hval⟩ := Run.map_eq_ok.1 hrun
  simp only [Prod.mk.injEq] at hval
  obtain ⟨hconn, hev, hopen, hsent, hsize⟩ := hval
  exact ⟨s, hs, ⟨hconn, hev, hopen, hsent⟩, hsize⟩

/-- The file has one response, the first time and the second. -/
theorem sameResponse_iff_getByte : ∃ s t s' t' r, Run.run turn (start 5 0) [] = .ok s ∧
    Run.run turn (start 5 0) [askForByte] = .ok t ∧
    s.eventReadableCallback (oneByte 1000) (onMessage (oneByte 1000)) (some getByte) = .ok s' ∧
    t.eventReadableCallback (oneByte 1000) (onMessage (oneByte 1000)) (some getByte) = .ok t' ∧
    s'.stream = s.stream ++ r ∧ t'.stream = t.stream ++ r ∧ (s'.Keeps ↔ t'.Keeps) := by
  obtain ⟨s, hs, hrest, -⟩ := rests_askForByte (Or.inl ⟨rfl, rfl⟩)
  obtain ⟨t, ht, hrest', -⟩ := rests_askForByte (Or.inr ⟨rfl, rfl⟩)
  have hreturns : (Run.run turn (start 5 0) [] >>= fun s =>
      s.eventReadableCallback (oneByte 1000) (onMessage (oneByte 1000)) (some getByte)).map connLive = .ok true := by
    decide +kernel
  rw [hs, Run.ok_bind] at hreturns
  obtain ⟨s', hok, -⟩ := Run.map_eq_ok.1 hreturns
  have hopens : Opens (oneByte 1000) getByte :=
    ⟨.getRoot, ⟨str "\r\n", by decide +kernel⟩, by decide +kernel, by decide +kernel, rfl⟩
  have haccepts : AcceptsLine (oneByte 1000) .getRoot :=
    ⟨by decide +kernel, by decide +kernel, found_iff.2 rfl⟩
  have hcomplete : ∀ post, ¬ Unfinished (oneByte 1000) [] getByte post := by
    intro post hunfinished
    rw [show getByte = RequestLine.getRoot.bytes ++ (headerLines [] ++ crlf) by decide +kernel,
      unfinished_iff haccepts HeaderLine.blank_nil (List.prefix_refl crlf), List.append_assoc,
      bodyMissing_inside (show LengthsInside [] crlf from trivial)] at hunfinished
    exact absurd hunfinished (by decide +kernel)
  obtain ⟨t', r, r', hok', hr, hr', hiff, -⟩ := sameResponse_iff (oneByte 1000) (oneByte 1000) 5 0 []
    [askForByte] s t s' getByte hs ht hrest hrest' (by decide +kernel) (.refl _) ⟨rfl, rfl⟩ hok
  obtain ⟨rfl, hkeeps⟩ := hiff ⟨iff_of_false (hcomplete _) (hcomplete _), Or.inl hopens⟩
  exact ⟨s, t, s', t', r, hs, ht, hok, hok', hr, hr', hkeeps⟩

/-- A line that is not a request. -/
def noRequest : List Byte := str "x\r\n\r\n"

/-- What it is answered behind a history. -/
def refusal (earlier : List Turn) : Except Fault (List Byte) := do
  let s ← Run.run turn (start 5 0) earlier
  let s' ← s.eventReadableCallback (oneByte 1000) (onMessage (oneByte 1000)) (some noRequest)
  pure (s'.stream.drop s.stream.length)

theorem refusal_eq {earlier : List Turn} {r : List Byte}
    (hs : Run.run turn (start 5 0) earlier = .ok s)
    (hok : s.eventReadableCallback (oneByte 1000) (onMessage (oneByte 1000)) (some noRequest) = .ok s')
    (hr : s'.stream = s.stream ++ r) : refusal earlier = .ok r := by
  unfold refusal
  rw [hs, Run.ok_bind, hok, Run.ok_bind, hr, List.drop_left]
  rfl

/-- **A line that is not a request, as the first message and as the second**: the error response
announces nothing, or the byte of the file that was sent before. -/
theorem not_sameResponse : ¬ ∀ (env env' : Env) (connfd time : Int) (earlier earlier' : List Turn)
    (s t s' : WebSession) (m : List Byte), Run.run turn (start connfd time) earlier = .ok s →
      Run.run turn (start connfd time) earlier' = .ok t → s.Rests → t.Rests → m ≠ [] →
        SameWorld env env' → SameSocket env env' s t →
          s.eventReadableCallback env (onMessage env) (some m) = .ok s' →
            ∃ t' r, t.eventReadableCallback env' (onMessage env') (some m) = .ok t' ∧
              s'.stream = s.stream ++ r ∧ t'.stream = t.stream ++ r ∧ (s'.Keeps ↔ t'.Keeps) := by
  intro h
  obtain ⟨s, hs, hrest, -⟩ := rests_askForByte (Or.inl ⟨rfl, rfl⟩)
  obtain ⟨t, ht, hrest', -⟩ := rests_askForByte (Or.inr ⟨rfl, rfl⟩)
  have hreturns : (Run.run turn (start 5 0) [] >>= fun s =>
      s.eventReadableCallback (oneByte 1000) (onMessage (oneByte 1000)) (some noRequest)).map connLive = .ok true := by
    decide +kernel
  have hdiffers : refusal [] ≠ refusal [askForByte] := by decide +kernel
  rw [hs, Run.ok_bind] at hreturns
  obtain ⟨s', hok, -⟩ := Run.map_eq_ok.1 hreturns
  obtain ⟨t', r, hok', hr, hr', -⟩ := h (oneByte 1000) (oneByte 1000) 5 0 [] [askForByte] s t s'
    noRequest hs ht hrest hrest' (by decide +kernel) (.refl _) ⟨rfl, rfl⟩ hok
  exact hdiffers ((refusal_eq hs hok hr).trans (refusal_eq ht hok' hr').symm)

end Session

end MWebServer
